import SyntaxTree.Proofs.Outermost
import SyntaxTree.Proofs.Survival

/-!
The same green node in a tree and by itself. What can be seen from a handle in a tree can be seen
from a root made of its green node as well, but for the place: offsets count from the start of the
handle, and paths end at it. Main statement: walks, diagnostics, outermost tokens and the tokens at
an offset are the same, with all ranges shifted by the offset of the handle.
-/

namespace SyntaxTree

theorem TextRange.shift_spanning (start width distance : Nat) :
    (TextRange.spanning start width).shift distance = .spanning (start + distance) width := by
  simp [spanning, shift, Nat.add_right_comm]

namespace Red

/-- Whether a node stands below a place where another one stands below a root made of the same green
node. Paths begin with the innermost index, so that of the place comes last. -/
structure Node.Translates (place fresh moved : Node) : Prop where
  green_eq : moved.green = fresh.green
  path_eq : moved.path = fresh.path ++ place.path
  range_eq : moved.range = fresh.range.shift place.offset
  treeRoot_eq : moved.treeRoot = place.treeRoot

structure Node.TranslatesToken (place : Node) (fresh moved : Token) : Prop where
  green_eq : moved.green = fresh.green
  path_eq : moved.path = fresh.path ++ place.path
  range_eq : moved.range = fresh.range.shift place.offset
  treeRoot?_eq : moved.treeRoot? = some place.treeRoot

inductive Node.TranslatesSlot (place : Node) : Slot → Slot → Prop
  | node {fresh moved : Node} : place.Translates fresh moved →
      TranslatesSlot place (.node fresh) (.node moved)
  | token {fresh moved : Token} : place.TranslatesToken fresh moved →
      TranslatesSlot place (.token fresh) (.token moved)
  | absent : TranslatesSlot place .absent .absent

inductive Node.TranslatesEvent (place : Node) : WalkEvent → WalkEvent → Prop
  | enter {fresh moved : Node} : place.Translates fresh moved →
      TranslatesEvent place (.enter fresh) (.enter moved)
  | leave {fresh moved : Node} : place.Translates fresh moved →
      TranslatesEvent place (.leave fresh) (.leave moved)
  | token {fresh moved : Token} : place.TranslatesToken fresh moved →
      TranslatesEvent place (.token fresh) (.token moved)

inductive Node.TranslatesAnswer (place : Node) : TokenAtOffset → TokenAtOffset → Prop
  | none : TranslatesAnswer place .none .none
  | single {fresh moved : Token} : place.TranslatesToken fresh moved →
      TranslatesAnswer place (.single fresh) (.single moved)
  | between {freshLeft freshRight movedLeft movedRight : Token} :
      place.TranslatesToken freshLeft movedLeft → place.TranslatesToken freshRight movedRight →
      TranslatesAnswer place (.between freshLeft freshRight) (.between movedLeft movedRight)

theorem rel_head? {First Second : Type} {related : First → Second → Prop} {firsts : List First}
    {seconds : List Second} (each : List.Forall₂ related firsts seconds) :
    Option.Rel related firsts.head? seconds.head? := by
  cases each with
  | nil => exact .none
  | cons first _ => exact .some first

variable {place fresh moved : Node}

namespace Node

theorem translates_self (place : Node) : place.Translates (.root place.green) place where
  green_eq := rfl
  path_eq := rfl
  range_eq := by
    rw [range, range, TextRange.shift_spanning, offset, Nat.zero_add]
    rfl
  treeRoot_eq := rfl

theorem Translates.offset_eq (translates : place.Translates fresh moved) :
    moved.offset = fresh.offset + place.offset :=
  congrArg TextRange.start translates.range_eq

theorem Translates.view (translates : place.Translates fresh moved) (index offset : Nat)
    (slot : Green.Slot) :
    place.TranslatesSlot (view fresh index offset slot)
      (view moved index (offset + place.offset) slot) := by
  have path_eq : index :: moved.path = (index :: fresh.path) ++ place.path := by
    rw [translates.path_eq, List.cons_append]
  cases slot with
  | node green =>
      exact .node ⟨rfl, path_eq, (TextRange.shift_spanning _ _ _).symm, translates.treeRoot_eq⟩
  | token green =>
      exact .token ⟨rfl, path_eq, (TextRange.shift_spanning _ _ _).symm,
        congrArg some translates.treeRoot_eq⟩
  | absent => exact .absent

theorem Translates.viewAll (translates : place.Translates fresh moved) (index offset : Nat)
    (slots : List Green.Slot) :
    List.Forall₂ place.TranslatesSlot (viewAll fresh index offset slots)
      (viewAll moved index (offset + place.offset) slots) := by
  induction slots generalizing index offset with
  | nil => exact .nil
  | cons slot rest inductionHypothesis =>
      refine .cons (translates.view index offset slot) ?_
      rw [Nat.add_right_comm]
      exact inductionHypothesis (index + 1) (offset + slot.width)

theorem Translates.slots (translates : place.Translates fresh moved) :
    List.Forall₂ place.TranslatesSlot fresh.slots moved.slots := by
  rw [Node.slots, Node.slots, translates.green_eq, translates.offset_eq]
  exact translates.viewAll 0 fresh.offset fresh.green.slots

end Node

theorem translates_events_of_slots {showsTokens : Bool} {slots others : List Slot}
    (each : List.Forall₂ place.TranslatesSlot slots others)
    (below : ∀ {fresh}, .node fresh ∈ slots → ∀ {moved}, place.Translates fresh moved →
      List.Forall₂ place.TranslatesEvent (fresh.events showsTokens) (moved.events showsTokens)) :
    List.Forall₂ place.TranslatesEvent (slots.flatMap (Slot.events showsTokens))
      (others.flatMap (Slot.events showsTokens)) := by
  induction each with
  | nil => exact .nil
  | cons first rest inductionHypothesis =>
      have restEvents := inductionHypothesis fun present => below (List.mem_cons_of_mem _ present)
      rw [List.flatMap_cons, List.flatMap_cons]
      refine List.rel_append ?_ restEvents
      cases first with
      | node translates => exact below List.mem_cons_self translates
      | token translates =>
          cases showsTokens with
          | true => exact .cons (.token translates) .nil
          | false => exact .nil
      | absent => exact .nil

namespace Node

theorem Translates.events (translates : place.Translates fresh moved) (showsTokens : Bool) :
    List.Forall₂ place.TranslatesEvent (fresh.events showsTokens) (moved.events showsTokens) := by
  induction fresh using below_induction generalizing moved with
  | step fresh inductionHypothesis =>
      rw [events_eq, events_eq]
      refine .cons (.enter translates) (List.rel_append ?_ (.cons (.leave translates) .nil))
      exact translates_events_of_slots translates.slots inductionHypothesis

theorem Translates.tokens (translates : place.Translates fresh moved) :
    List.Forall₂ place.TranslatesToken fresh.tokens moved.tokens := by
  rw [Node.tokens, Node.tokens, Walk.toList_start, Walk.toList_start]
  refine List.rel_filterMap ?_ (translates.events true)
  intro event other translated
  cases translated with
  | enter _ => exact .none
  | leave _ => exact .none
  | token token => exact .some token

theorem TranslatesToken.touches_iff {fresh moved : Token}
    (translates : place.TranslatesToken fresh moved) (offset : Nat) :
    (moved.width ≠ 0 ∧ moved.offset ≤ place.offset + offset ∧
        place.offset + offset ≤ moved.offset + moved.width) ↔
      fresh.width ≠ 0 ∧ fresh.offset ≤ offset ∧ offset ≤ fresh.offset + fresh.width := by
  have offset_eq : moved.offset = fresh.offset + place.offset :=
    congrArg TextRange.start translates.range_eq
  have width_eq : moved.width = fresh.width := congrArg Green.Token.width translates.green_eq
  omega

theorem Translates.tokensAt (translates : place.Translates fresh moved) (offset : Nat) :
    List.Forall₂ place.TranslatesToken (fresh.tokensAt offset)
      (moved.tokensAt (place.offset + offset)) := by
  refine List.rel_filter ?_ translates.tokens
  intro token other translated
  simpa only [decide_eq_true_eq] using (translated.touches_iff offset).symm

theorem translatesAnswer_ofTokens {tokens others : List Token}
    (each : List.Forall₂ place.TranslatesToken tokens others) :
    place.TranslatesAnswer (.ofTokens tokens) (.ofTokens others) := by
  cases each with
  | nil => exact .none
  | cons first rest =>
      cases rest with
      | nil => exact .single first
      | cons second _ => exact .between first second

/-- No token stands before the node that it is below. -/
theorem tokenAt_of_lt {node : Node} {offset : Nat} (before : offset < node.offset) :
    node.tokenAt offset = .none := by
  have missed : node.range.meets offset = false := by
    rw [← Bool.not_eq_true, TextRange.meets_iff]
    exact fun met => absurd met.2.1 (Nat.not_le.mpr before)
  rw [tokenAt_eq, missed]
  rfl

end Node

variable {root : Green.Node} {workspace : Workspace} {made : List Green.Slot} {node : Node}

/-- A walk from a node shows what one from a root made of its green node does: the same green values
at the same paths below the start, with ranges shifted by the offset of the node. The same goes for
the diagnostics, for the first and the last token, and for the tokens at an offset that counts from
the start of the node. At an offset before its start a node has no tokens. -/
theorem views_are_translated (history : Green.History workspace made)
    (rootMade : .node root ∈ made) (inTree : Node.InTree root node) :
    (∀ showsTokens, List.Forall₂ node.TranslatesEvent
      (Walk.start showsTokens (.root node.green)).toList (Walk.start showsTokens node).toList) ∧
    node.diagnostics = (Node.root node.green).diagnostics.map (·.shift node.offset) ∧
    Option.Rel node.TranslatesToken (Node.root node.green).firstToken? node.firstToken? ∧
    Option.Rel node.TranslatesToken (Node.root node.green).lastToken? node.lastToken? ∧
    (∀ offset, node.TranslatesAnswer ((Node.root node.green).tokenAt offset)
      (node.tokenAt (node.offset + offset))) ∧
    ∀ offset < node.offset, node.tokenAt offset = .none := by
  have greenMade : .node node.green ∈ made := inTree.green_mem history rootMade
  have translates := node.translates_self
  refine ⟨fun showsTokens => ?_, ?_, ?_, ?_, fun offset => ?_, fun offset => Node.tokenAt_of_lt⟩
  · rw [Walk.toList_start, Walk.toList_start]
    exact translates.events showsTokens
  · rw [inTree.diagnostics_eq history rootMade]
    exact (Slot.shift_diagnostics_alone history (.inr greenMade) node.offset).symm
  · rw [Node.firstToken?_eq_head?, Node.firstToken?_eq_head?]
    exact rel_head? translates.tokens
  · rw [Node.lastToken?_eq_getLast?, Node.lastToken?_eq_getLast?, List.getLast?_eq_head?_reverse,
      List.getLast?_eq_head?_reverse]
    exact rel_head? (List.rel_reverse translates.tokens)
  · have alone : Node.InTree node.green (.root node.green) := .root
    rw [alone.tokenAt_eq_ofTokens history greenMade, inTree.tokenAt_eq_ofTokens history rootMade]
    exact Node.translatesAnswer_ofTokens (translates.tokensAt offset)

namespace Sample

def leftToken : Token :=
  .held Green.Unclosed.leftToken 0 0 (.child Green.Unclosed.left 0 0 (.root Green.Unclosed.sum))

def plus : Token := .held Green.Unclosed.plus 2 1 (.root Green.Unclosed.sum)

end Sample

open Green.Unclosed (history braced_mem remark) in
theorem views_are_translated_of_sum :
    Sample.sum.TranslatesAnswer (.between Sample.leftToken Sample.plus)
      (Sample.sum.tokenAt (1 + 2)) ∧
    Sample.sum.diagnostics = [(remark "sum").locate ⟨1, 6⟩, (remark "right").locate ⟨4, 6⟩] ∧
    Sample.sum.tokenAt 0 = .none := by
  obtain ⟨-, diagnostics, -, -, answers, before⟩ :=
    views_are_translated history braced_mem Sample.sum_inTree
  have answer : (Node.root Sample.sum.green).tokenAt 2 =
      .between Sample.leftToken Sample.plus := rfl
  exact ⟨answer ▸ answers 2, diagnostics.trans rfl, before 0 (by decide)⟩

end Red

end SyntaxTree
