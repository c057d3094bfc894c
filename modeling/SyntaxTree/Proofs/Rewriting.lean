import SyntaxTree.Proofs.Leaves
import SyntaxTree.Proofs.Path
import SyntaxTree.Proofs.Replacement

/-!
Trees with other tokens. What comes in place of a slot has its shape and the tokens that were given
for its own; below a node it is the very same value where all tokens are. Main statements: such a
value fits wherever the old one did if the kinds of the tokens do not change, its text is that of
the given tokens, and handles see it slot by slot.
-/

namespace SyntaxTree

theorem forall₂_imp_of_mem {First Second : Type} {before after : First → Second → Prop}
    {firsts : List First} {seconds : List Second} (related : List.Forall₂ before firsts seconds)
    (each : ∀ first ∈ firsts, ∀ second, before first second → after first second) :
    List.Forall₂ after firsts seconds :=
  ((List.forall₂_and_left firsts seconds).mpr ⟨each, related⟩).imp
    fun _ second both => both.1 second both.2

theorem forall_mem_of_forall₂ {First Second : Type} {relation : First → Second → Prop}
    {holds : Second → Prop} {firsts : List First} {seconds : List Second}
    (related : List.Forall₂ relation firsts seconds)
    (each : ∀ first ∈ firsts, ∀ second, relation first second → holds second) :
    ∀ second ∈ seconds, holds second := by
  intro second present
  obtain ⟨index, inRange, rfl⟩ := List.getElem_of_mem present
  have inFirsts : index < firsts.length := related.length_eq ▸ inRange
  exact each _ (List.getElem_mem inFirsts) _ (related.get inFirsts inRange)

namespace Red

/-- What holds of tokens and of absence, and of a node whenever it holds of its slots, holds of all
slots. -/
theorem Slot.below_induction {motive : Slot → Prop} (absent : motive .absent)
    (token : ∀ token, motive (.token token))
    (node : ∀ node : Node, (∀ slot ∈ node.slots, motive slot) → motive (.node node))
    (slot : Slot) : motive slot := by
  cases slot with
  | absent => exact absent
  | token value => exact token value
  | node value =>
      induction value using Node.below_induction with
      | step value inductionHypothesis =>
          refine node value fun slot present => ?_
          cases slot with
          | absent => exact absent
          | token value => exact token value
          | node below => exact inductionHypothesis present

/-- What comes in place of a slot when tokens are given for those below it. A node with none but the
old tokens stays; any other is built anew over what comes in place of its slots. -/
inductive Rewritten (made : List Green.Slot) (given : Token → Green.Token) :
    Slot → Green.Slot → Prop
  | absent : Rewritten made given .absent .absent
  | token (token : Token) : Rewritten made given (.token token) (.token (given token))
  | kept {node : Node} :
      List.Forall₂ (Rewritten made given) node.slots node.green.slots →
      (∀ token ∈ node.tokens, token.green.identical (given token) = true) →
      Rewritten made given (.node node) (.node node.green)
  | rebuilt {node : Node} {stamp : Stamp} {slots : List Green.Slot} :
      List.Forall₂ (Rewritten made given) node.slots slots →
      (∃ token ∈ node.tokens, token.green.identical (given token) = false) →
      (∀ value ∈ made, value.stamp? ≠ some stamp) →
      Rewritten made given (.node node) (.node (.assemble stamp node.kind slots []))

namespace Rewritten

variable {made : List Green.Slot} {given : Token → Green.Token} {slot : Slot} {value : Green.Slot}
  {node : Node} {green : Green.Node}

theorem slots (rewritten : Rewritten made given (.node node) (.node green)) :
    List.Forall₂ (Rewritten made given) node.slots green.slots := by
  cases rewritten with
  | kept each _ => exact each
  | rebuilt each _ _ => exact each

theorem kind_eq (rewritten : Rewritten made given (.node node) (.node green)) :
    green.kind = node.kind := by
  cases rewritten <;> rfl

theorem exists_node (rewritten : Rewritten made given (.node node) value) :
    ∃ green, value = .node green := by
  cases rewritten <;> exact ⟨_, rfl⟩

theorem bare_and_fresh (rewritten : Rewritten made given (.node node) (.node green))
    (other : node.green.identical green = false) :
    green.remarks = [] ∧ ∀ value ∈ made, value.stamp? ≠ some green.stamp := by
  cases rewritten with
  | kept _ _ => simp [Green.Node.identical] at other
  | rebuilt _ _ fresh => exact ⟨rfl, fresh⟩

/-- Of the tokens given, only those for the tokens below matter. -/
theorem congr {other : Token → Green.Token} (rewritten : Rewritten made given slot value)
    (same : ∀ token ∈ slot.tokens, given token = other token) :
    Rewritten made other slot value := by
  induction slot using Slot.below_induction generalizing value with
  | absent =>
      cases rewritten
      exact .absent
  | token token =>
      cases rewritten
      rw [same token (List.mem_singleton_self token)]
      exact .token token
  | node node inductionHypothesis =>
      have each {values : List Green.Slot}
          (rewritten : List.Forall₂ (Rewritten made given) node.slots values) :
          List.Forall₂ (Rewritten made other) node.slots values := by
        refine forall₂_imp_of_mem rewritten fun slot present value rewritten => ?_
        exact inductionHypothesis slot present rewritten fun token below =>
          same token (Node.mem_tokens_iff.mpr ⟨slot, present, below⟩)
      cases rewritten with
      | kept slots unchanged =>
          refine .kept (each slots) fun token present => ?_
          rw [← same token present]
          exact unchanged token present
      | rebuilt slots changed fresh =>
          obtain ⟨token, present, differs⟩ := changed
          rw [same token present] at differs
          exact .rebuilt (each slots) ⟨token, present, differs⟩ fresh

theorem text_of_slots {slots : List Slot} {values : List Green.Slot}
    (each : List.Forall₂ (fun slot value => Green.textOfSlot value =
      String.join (slot.tokens.map fun token => (given token).text)) slots values) :
    Green.textOfSlots values =
      String.join ((slots.flatMap Slot.tokens).map fun token => (given token).text) := by
  induction each with
  | nil => rfl
  | cons first _ inductionHypothesis =>
      rw [Green.textOfSlots_cons, first, inductionHypothesis, List.flatMap_cons, List.map_append,
        String.join_append]

theorem text_eq (rewritten : Rewritten made given slot value) :
    Green.textOfSlot value = String.join (slot.tokens.map fun token => (given token).text) := by
  induction slot using Slot.below_induction generalizing value with
  | absent =>
      cases rewritten
      rfl
  | token token =>
      cases rewritten
      simp [Slot.tokens]
  | node node inductionHypothesis =>
      obtain ⟨green, rfl⟩ := rewritten.exists_node
      have each := forall₂_imp_of_mem rewritten.slots fun slot present value rewritten =>
        inductionHypothesis slot present rewritten
      rw [Green.textOfSlot_node, Green.Node.text_eq, Slot.tokens, Node.tokens_eq]
      exact text_of_slots each

/-- What a spec admits, it admits with other tokens of the same kinds. -/
theorem admits {spec : SlotSpec} (rewritten : Rewritten made given slot value)
    (sameKind : ∀ token ∈ slot.tokens, (given token).kind = token.kind)
    (admitted : spec.Admits (Green.Slot.description slot.green)) :
    spec.Admits (Green.Slot.description value) := by
  cases slot with
  | absent =>
      cases rewritten
      exact admitted
  | token token =>
      cases rewritten
      cases admitted with
      | token shape member =>
          refine .token shape ?_
          rwa [sameKind token (List.mem_singleton_self token)]
  | node node =>
      obtain ⟨green, rfl⟩ := rewritten.exists_node
      refine SlotSpec.admits_node_of_alike rewritten.kind_eq ?_ admitted
      refine forall_mem_of_forall₂ rewritten.slots fun slot present value slotRewritten => ?_
      refine ⟨slot.green, Node.green_mem_slots present, ?_⟩
      intro element isNode
      cases slot with
      | node child =>
          cases isNode
          obtain ⟨other, rfl⟩ := slotRewritten.exists_node
          exact ⟨other, rfl, slotRewritten.kind_eq⟩
      | token token => cases isNode
      | absent => cases isNode

/-- A slot keeps the very same value exactly when all tokens below it do. -/
theorem identical_iff (rewritten : Rewritten made given slot value)
    (available : Green.Available made slot.green) :
    slot.green.identical value = true ↔
      ∀ token ∈ slot.tokens, token.green.identical (given token) = true := by
  cases rewritten with
  | absent => simp [Slot.green, Slot.map, Slot.tokens, Green.Slot.identical]
  | token token => simp [Slot.green, Slot.map, Slot.tokens, Green.Slot.identical]
  | kept _ unchanged => simpa [Slot.green, Slot.map, Slot.tokens] using unchanged
  | @rebuilt node stamp slots _ changed fresh =>
      constructor
      · intro same
        have nodeMade : .node node.green ∈ made :=
          available.resolve_left (by simp [Slot.green, Slot.map])
        exact absurd (congrArg some (beq_iff_eq.mp same)) (fresh _ nodeMade)
      · intro unchanged
        obtain ⟨token, present, differs⟩ := changed
        rw [unchanged token present] at differs
        cases differs

theorem allIdentical_iff {slots : List Slot} {values : List Green.Slot}
    (rewritten : List.Forall₂ (Rewritten made given) slots values)
    (available : ∀ slot ∈ slots, Green.Available made slot.green) :
    Green.Slot.allIdentical (slots.map Slot.green) values = true ↔
      ∀ token ∈ slots.flatMap Slot.tokens, token.green.identical (given token) = true := by
  induction rewritten with
  | nil => simp
  | cons first _ inductionHypothesis =>
      rw [List.forall_mem_cons] at available
      rw [List.map_cons, Green.Slot.allIdentical, Bool.and_eq_true,
        first.identical_iff available.1, inductionHypothesis available.2, List.flatMap_cons,
        List.forall_mem_append]

theorem admitAll {specs : List SlotSpec} {slots : List Slot} {values : List Green.Slot}
    (rewritten : List.Forall₂ (Rewritten made given) slots values)
    (sameKind : ∀ token ∈ slots.flatMap Slot.tokens, (given token).kind = token.kind)
    (admitted : SlotSpec.AdmitAll specs (slots.map Slot.green)) :
    SlotSpec.AdmitAll specs values := by
  induction rewritten generalizing specs with
  | nil => exact admitted
  | cons first _ inductionHypothesis =>
      rw [List.flatMap_cons, List.forall_mem_append] at sameKind
      cases admitted with
      | cons firstAdmitted restAdmitted =>
          exact .cons (first.admits sameKind.1 firstAdmitted)
            (inductionHypothesis sameKind.2 restAdmitted)

variable {root : Green.Node} {workspace : Workspace}

/-- Slots with other tokens of the same kinds may be put in place of those of a node. -/
theorem admitsInPlace {now values : List Green.Slot} (history : Green.History workspace now)
    (rootMade : .node root ∈ now) (inTree : Node.InTree root node)
    (rewritten : List.Forall₂ (Rewritten made given) node.slots values)
    (sameKind : ∀ token ∈ node.tokens, (given token).kind = token.kind) :
    node.AdmitsInPlace values := by
  have admitted := inTree.admitsInPlace history rootMade
  rw [Node.tokens_eq] at sameKind
  rw [Node.AdmitsInPlace, ← node.map_green_slots, List.length_map, rewritten.length_eq] at admitted
  exact admitAll rewritten sameKind admitted

variable {before after : Node}

/-- Slot by slot, handles see what comes in place of the old slots. -/
theorem slot? (rewritten : Rewritten made given (.node before) (.node after.green)) {index : Nat}
    {slot : Slot} (shown : before.slot? index = some slot) :
    ∃ later : Slot, after.slot? index = some later ∧ Rewritten made given slot later.green := by
  have each := rewritten.slots
  rw [← after.map_green_slots, List.forall₂_map_right_iff] at each
  rw [← before.slots_getElem?] at shown
  obtain ⟨inRange, rfl⟩ := List.getElem?_eq_some_iff.mp shown
  have inAfter : index < after.slots.length := each.length_eq ▸ inRange
  exact ⟨after.slots[index], after.slots_getElem? index ▸ List.getElem?_eq_getElem inAfter,
    each.get inRange inAfter⟩

theorem slotCount_eq (rewritten : Rewritten made given (.node before) (.node after.green)) :
    after.slotCount = before.slotCount := by
  rw [← before.length_slots, rewritten.slots.length_eq, Node.slotCount]

theorem descend (rewritten : Rewritten made given (.node before) (.node after.green))
    {path : List Nat} {below : Node} (reached : before.descend path = .ok below) :
    ∃ later, after.descend path = .ok later ∧
      Rewritten made given (.node below) (.node later.green) := by
  induction path generalizing before after with
  | nil =>
      cases reached
      exact ⟨after, rfl, rewritten⟩
  | cons index rest inductionHypothesis =>
      obtain ⟨child, shown, childReached⟩ := Node.descend_cons_eq_ok_iff.mp reached
      obtain ⟨slot, laterShown, slotRewritten⟩ := rewritten.slot? shown
      cases slot with
      | node laterChild =>
          obtain ⟨later, laterReached, laterRewritten⟩ :=
            inductionHypothesis slotRewritten childReached
          exact ⟨later, Node.descend_cons_eq_ok_iff.mpr ⟨laterChild, laterShown, laterReached⟩,
            laterRewritten⟩
      | token token => cases slotRewritten
      | absent => cases slotRewritten

end Rewritten

/-- How a node is after tokens were given for those below it: the same one, or one that was not
there before. -/
structure Node.Retokened (made : List Green.Slot) (given : Token → Green.Token)
    (before after : Node) : Prop where
  kind_eq : after.kind = before.kind
  slotCount_eq : after.slotCount = before.slotCount
  identical_iff : before.green.identical after.green = true ↔
    ∀ token ∈ before.tokens, token.green.identical (given token) = true
  rebuilt : before.green.identical after.green = false →
    after.green.remarks = [] ∧ ∀ value ∈ made, value.stamp? ≠ some after.green.stamp
  token : ∀ {index token}, before.slot? index = some (.token token) →
    ∃ later, after.slot? index = some (.token later) ∧ later.green = given token
  absent : ∀ {index}, before.slot? index = some .absent → after.slot? index = some .absent

variable {made : List Green.Slot} {root : Green.Node} {workspace : Workspace}

theorem Rewritten.retokened {given : Token → Green.Token} {before after : Node}
    (rewritten : Rewritten made given (.node before) (.node after.green))
    (beforeMade : .node before.green ∈ made) : before.Retokened made given after where
  kind_eq := rewritten.kind_eq
  slotCount_eq := rewritten.slotCount_eq
  identical_iff := rewritten.identical_iff (.inr beforeMade)
  rebuilt := rewritten.bare_and_fresh
  token shown := by
    obtain ⟨slot, laterShown, slotRewritten⟩ := rewritten.slot? shown
    cases slot with
    | token later =>
        refine ⟨later, laterShown, ?_⟩
        change Rewritten made given _ (.token later.green) at slotRewritten
        generalize later.green = green at slotRewritten ⊢
        cases slotRewritten
        rfl
    | node later => cases slotRewritten
    | absent => cases slotRewritten
  absent shown := by
    obtain ⟨slot, laterShown, slotRewritten⟩ := rewritten.slot? shown
    cases slot with
    | absent => exact laterShown
    | node later => cases slotRewritten
    | token later => cases slotRewritten

/-- What comes of a node can be put in its place. -/
theorem Rewritten.exists_edited {node : Node} {green : Green.Node} {given : Token → Green.Token}
    {now : List Green.Slot} (history : Green.History workspace now) (rootMade : .node root ∈ now)
    (inTree : Node.InTree root node) (greenMade : .node green ∈ now)
    (rewritten : Rewritten made given (.node node) (.node green))
    (sameKind : ∀ token ∈ node.tokens, (given token).kind = token.kind) :
    ∃ edited later, node.replaceWith green workspace = .ok edited later ∧ edited.green = green ∧
      Node.InTree edited.treeRoot.green edited ∧ edited.path = node.path ∧
      edited.textBefore = node.textBefore ∧ edited.textAfter = node.textAfter ∧
      ((∀ token ∈ node.tokens, token.green.identical (given token) = true) → edited = node) := by
  cases same : green.identical node.green with
  | true =>
      obtain ⟨rfl, run⟩ := inTree.replaceWith_of_identical history rootMade greenMade same
      refine ⟨node, _, run, rfl, ?_, rfl, rfl, rfl, fun _ => rfl⟩
      rwa [inTree.treeRoot_eq]
  | false =>
      cases rewritten with
      | kept _ _ => simp [Green.Node.identical] at same
      | rebuilt slots changed _ =>
          have admitted := Rewritten.admitsInPlace history rootMade inTree slots sameKind
          obtain ⟨events, run⟩ := inTree.replaceWith_of_fits history rootMade greenMade same
            (admitted.fitsAbove history rootMade inTree _ [])
          refine ⟨_, _, run, Node.regrown_green _ _ _, inTree.regrown _ _, Node.regrown_path _ _ _,
            Node.regrown_textBefore _ _ _, Node.regrown_textAfter _ _ _, fun unchanged => ?_⟩
          obtain ⟨token, present, differs⟩ := changed
          rw [unchanged token present] at differs
          cases differs

/-- The text of a tree with other tokens below a node. -/
theorem Node.InTree.text_of_given {node edited : Node} {given : Token → Green.Token}
    (inTree : Node.InTree root node) (editedIn : Node.InTree edited.treeRoot.green edited)
    (before_eq : edited.textBefore = node.textBefore)
    (after_eq : edited.textAfter = node.textAfter)
    (text_eq : edited.text = String.join (node.tokens.map fun token => (given token).text))
    (elsewhere : ∀ token, token ∉ node.tokens → token.green = given token) :
    edited.treeRoot.text =
      String.join ((Node.root root).tokens.map fun token => (given token).text) := by
  obtain ⟨front, back, split, front_eq, back_eq⟩ := inTree.exists_tokens_split
  have distinct := (Node.root root).tokens_nodup
  rw [split, List.nodup_append', List.nodup_append'] at distinct
  obtain ⟨⟨_, _, frontApart⟩, _, backApart⟩ := distinct
  have kept {tokens : List Token} (apart : ∀ token ∈ tokens, token ∉ node.tokens) :
      tokens.map (fun token => (given token).text) = tokens.map (·.text) := by
    refine List.map_congr_left fun token present => ?_
    rw [← elsewhere token (apart token present), Token.text]
  rw [Node.text, editedIn.text_eq, before_eq, after_eq, text_eq, split, List.map_append,
    List.map_append, String.join_append, String.join_append,
    kept fun token present => frontApart present,
    kept fun token present inNode => backApart (List.mem_append_right _ inNode) present, front_eq,
    back_eq]

end Red

end SyntaxTree
