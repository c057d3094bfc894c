import SyntaxTree.Green.Agreement
import SyntaxTree.Proofs.Graft

/-!
Grafts and value equality. Values that look alike have the same numbers, so nodes assembled from
them look alike. Main statements: grafting values that look alike gives trees that look alike, with
whatever stamps; grafts at places of which neither is above the other can be done in either order;
and grafting a node without its remarks takes the remarks off the nodes on the path.
-/

namespace SyntaxTree.Green

theorem Node.sameValue_iff {first second : Node} :
    first.sameValue second = true ↔
      first.kind = second.kind ∧ first.width = second.width ∧
        first.hasRemarks = second.hasRemarks ∧ first.remarks = second.remarks ∧
        sameSlotValues first.slots second.slots = true := by
  cases first
  simp only [Node.sameValue, Bool.and_eq_true, beq_iff_eq, and_assoc]

theorem sameSlotValues_iff {firsts seconds : List Slot} :
    sameSlotValues firsts seconds = true ↔
      List.Forall₂ (fun first second => sameSlotValue first second = true) firsts seconds := by
  induction firsts generalizing seconds with
  | nil => cases seconds <;> simp [sameSlotValues]
  | cons first firsts inductionHypothesis =>
      cases seconds <;> simp [sameSlotValues, inductionHypothesis]

/-- Slots that look alike hold nodes, or hold tokens, or are absent. -/
theorem sameSlotValue_cases {first second : Slot} (same : sameSlotValue first second = true) :
    (∃ node twin : Node, first = .node node ∧ second = .node twin ∧ node.sameValue twin = true) ∨
      (∃ (token : Token) (stamp : Stamp), first = .token token ∧
        second = .token { token with stamp := stamp }) ∨
      first = .absent ∧ second = .absent := by
  cases first with
  | node node =>
      cases second with
      | node twin => exact .inl ⟨node, twin, rfl, rfl, same⟩
      | token twin => cases same
      | absent => cases same
  | token token =>
      cases second with
      | token twin => exact .inr (.inl ⟨token, twin.stamp, rfl, congrArg _ (eq_of_beq same).symm⟩)
      | node twin => cases same
      | absent => cases same
  | absent =>
      cases second with
      | absent => exact .inr (.inr ⟨rfl, rfl⟩)
      | node twin => cases same
      | token twin => cases same

theorem width_eq_of_sameValue {first second : Slot} (same : sameSlotValue first second = true) :
    first.width = second.width := by
  rcases sameSlotValue_cases same with
    ⟨node, twin, rfl, rfl, alike⟩ | ⟨token, stamp, rfl, rfl⟩ | ⟨rfl, rfl⟩
  · exact (Node.sameValue_iff.mp alike).2.1
  · rfl
  · rfl

theorem hasRemarks_eq_of_sameValue {first second : Slot}
    (same : sameSlotValue first second = true) : first.hasRemarks = second.hasRemarks := by
  rcases sameSlotValue_cases same with
    ⟨node, twin, rfl, rfl, alike⟩ | ⟨token, stamp, rfl, rfl⟩ | ⟨rfl, rfl⟩
  · exact (Node.sameValue_iff.mp alike).2.2.1
  · rfl
  · rfl

/-- Nodes assembled from slots that look alike look alike, whatever their stamps. -/
theorem sameSlotValue_assemble {firsts seconds : List Slot}
    (same : sameSlotValues firsts seconds = true) (firstStamp secondStamp : Stamp) (kind : NodeKind)
    (remarks : List Remark) :
    sameSlotValue (.node (.assemble firstStamp kind firsts remarks))
      (.node (.assemble secondStamp kind seconds remarks)) = true := by
  have numbers : Slot.totalWidth firsts = Slot.totalWidth seconds ∧
      firsts.any Slot.hasRemarks = seconds.any Slot.hasRemarks := by
    induction sameSlotValues_iff.mp same with
    | nil => exact ⟨rfl, rfl⟩
    | cons sameFirst rest inductionHypothesis =>
        obtain ⟨widths, remarked⟩ := inductionHypothesis (sameSlotValues_iff.mpr rest)
        rw [Slot.totalWidth, Slot.totalWidth, List.any_cons, List.any_cons, widths, remarked,
          width_eq_of_sameValue sameFirst, hasRemarks_eq_of_sameValue sameFirst]
        exact ⟨rfl, rfl⟩
  refine Node.sameValue_iff.mpr ⟨rfl, numbers.1, ?_, rfl, same⟩
  rw [Node.assemble, Node.assemble, numbers.2]

theorem sameSlotValues_modify {firsts seconds : List Slot} {index : Nat}
    {onFirst onSecond : Slot → Slot} (same : sameSlotValues firsts seconds = true)
    (there : ∀ {first second}, firsts[index]? = some first → seconds[index]? = some second →
      sameSlotValue first second = true → sameSlotValue (onFirst first) (onSecond second) = true) :
    sameSlotValues (firsts.modify index onFirst) (seconds.modify index onSecond) = true := by
  rw [sameSlotValues_iff] at same ⊢
  induction same generalizing index with
  | nil => simp
  | cons sameFirst rest inductionHypothesis =>
      cases index with
      | zero => exact .cons (there rfl rfl sameFirst) rest
      | succ index => exact .cons sameFirst (inductionHypothesis there)

namespace Slot

/-- Grafting what looks alike into what looks alike gives what looks alike. -/
theorem graft_sameValue {first second new other : Slot} (same : sameSlotValue first second = true)
    (sameNew : sameSlotValue new other = true) (serial otherSerial : Nat) (path : List Nat) :
    sameSlotValue (first.graft serial path new) (second.graft otherSerial path other) = true := by
  induction path generalizing first second with
  | nil => rwa [graft_nil, graft_nil]
  | cons index rest inductionHypothesis =>
      rcases sameSlotValue_cases same with
        ⟨node, twin, rfl, rfl, alike⟩ | ⟨token, stamp, rfl, rfl⟩ | ⟨rfl, rfl⟩
      · obtain ⟨kind_eq, _, _, _, sameSlots⟩ := Node.sameValue_iff.mp alike
        rw [graft, graft, kind_eq]
        refine sameSlotValue_assemble (sameSlotValues_modify sameSlots ?_) _ _ _ _
        intro _ _ _ _ sameSlot
        exact inductionHypothesis sameSlot
      · exact same
      · exact same

/-- Grafts at two places of which neither is above the other do not get in each other's way. -/
theorem graft_comm (slot : Slot) {front back : List Nat} (notAbove : ¬ front <+: back)
    (notBelow : ¬ back <+: front) {frontNew frontOther backNew backOther : Slot}
    (sameFront : sameSlotValue frontNew frontOther = true)
    (sameBack : sameSlotValue backNew backOther = true) (first second third fourth : Nat) :
    sameSlotValue ((slot.graft first front frontNew).graft second back backNew)
      ((slot.graft third back backOther).graft fourth front frontOther) = true := by
  induction front generalizing slot back with
  | nil => exact absurd List.nil_prefix notAbove
  | cons index rest inductionHypothesis =>
      cases back with
      | nil => exact absurd List.nil_prefix notBelow
      | cons otherIndex otherRest =>
          cases slot with
          | node node =>
              simp only [graft]
              refine sameSlotValue_assemble ?_ _ _ _ _
              have itself := sameSlotValues_self node.slots
              -- Below a common ancestor the paths still go on apart, or part here.
              by_cases sameIndex : index = otherIndex
              · subst sameIndex
                rw [List.cons_prefix_cons, not_and] at notAbove notBelow
                have below (next : Slot) :=
                  inductionHypothesis next (notAbove rfl) (notBelow rfl)
                rw [Node.assemble, Node.assemble, List.modify_modify_eq, List.modify_modify_eq]
                refine sameSlotValues_modify itself ?_
                intro next same found sameFound _
                obtain rfl := Option.some.inj (found.symm.trans sameFound)
                exact below next
              · rw [Node.assemble, Node.assemble, List.modify_modify_ne _ _ _ sameIndex]
                refine sameSlotValues_modify (sameSlotValues_modify itself ?_) ?_
                · intro _ _ _ _ sameSlot
                  exact graft_sameValue sameSlot sameBack _ _ _
                · intro _ _ _ _ sameSlot
                  exact graft_sameValue sameSlot sameFront _ _ _
          | token token => exact sameSlotValue_self _
          | absent => rfl

/-- Takes the remarks off the nodes on a path, the one at its end included. -/
def clear : Slot → List Nat → Slot
  | .node node, [] => .node (.assemble node.stamp node.kind node.slots [])
  | .node node, index :: rest =>
    .node (.assemble node.stamp node.kind (node.slots.modify index fun slot => clear slot rest) [])
  | .token token, _ => .token token
  | .absent, _ => .absent

/-- Building a node anew over its own slots only takes remarks off. -/
theorem graft_clear {slot : Slot} {start place : Nat} {path : List Nat} {node : Node}
    (found : slot.spot? start path = some ⟨.node node, place⟩) (serial : Nat) (stamp : Stamp) :
    sameSlotValue (slot.graft serial path (.node (.assemble stamp node.kind node.slots [])))
      (slot.clear path) = true := by
  induction path generalizing slot start with
  | nil =>
      rw [spot?_nil, Option.some.injEq, Spot.mk.injEq] at found
      obtain ⟨rfl, _⟩ := found
      rw [graft_nil]
      exact sameSlotValue_assemble (sameSlotValues_self _) _ _ _ _
  | cons index rest inductionHypothesis =>
      obtain ⟨holder, next, rfl, present, below⟩ := spot?_cons_eq_some_iff.mp found
      rw [graft, clear]
      refine sameSlotValue_assemble (sameSlotValues_modify (sameSlotValues_self _) ?_) _ _ _ _
      intro first second firstFound secondFound _
      obtain rfl := Option.some.inj (present.symm.trans firstFound)
      obtain rfl := Option.some.inj (present.symm.trans secondFound)
      exact inductionHypothesis below

end Slot

end SyntaxTree.Green
