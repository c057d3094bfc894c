import SyntaxTree.Proofs.Rewriting

/-!
Tokens of other kinds. A token does not fit where its slot does not take the kind given for it.
Main statements: a node has such a token in a slot of its own exactly when building it anew is
refused, for the first of them, whatever is wrong below; and the nodes below a node, each behind
those below it, have all its tokens in their slots.
-/

namespace SyntaxTree

/-- Checking from left to right reports the first misfit, if each slot is checked with the misfit
that an item tells. -/
theorem SlotSpec.checkAll_eq_elim {Item : Type} {misfit? : Item → Option SlotError} {owner : Kind}
    {specs : List SlotSpec} {values : List Green.Slot} {items : List Item}
    (each : List.Forall₂
      (fun item checked => checked.1.check owner checked.2 = (misfit? item).elim (.ok ()) .error)
      items (specs.zip values)) :
    checkAll owner specs values = (items.findSome? misfit?).elim (.ok ()) .error := by
  induction specs generalizing values items with
  | nil =>
      cases each
      rfl
  | cons spec specs inductionHypothesis =>
      cases values with
      | nil =>
          cases each
          rfl
      | cons value values =>
          cases each with
          | cons first rest =>
              rw [checkAll, first, inductionHypothesis rest, List.findSome?_cons]
              cases misfit? _ <;> rfl

namespace Red

def WalkEvent.left? : WalkEvent → Option Node
  | .leave node => some node
  | .enter _ | .token _ => none

/-- The nodes in the order in which a walk leaves them. -/
def Node.postorder (node : Node) : List Node :=
  (Walk.start true node).toList.filterMap (·.left?)

def Slot.postorder : Slot → List Node
  | .node node => node.postorder
  | .token _ | .absent => []

/-- All that is below a node comes before it, slot by slot. -/
theorem Node.postorder_eq (node : Node) :
    node.postorder = node.slots.flatMap Slot.postorder ++ [node] := by
  have shown (slot : Slot) : (slot.events true).filterMap (·.left?) = slot.postorder := by
    cases slot with
    | node below => rw [Slot.postorder, Node.postorder, Walk.toList_start, Slot.events]
    | token token => rfl
    | absent => rfl
  rw [postorder, Walk.toList_start, events_eq, List.cons_append, List.filterMap_cons_none rfl,
    List.filterMap_append, List.filterMap_flatMap, List.flatMap_congr fun slot _ => shown slot]
  rfl

/-- The tokens below a node are those in slots of the nodes below it and of its own. -/
theorem Node.mem_tokens_iff_postorder {node : Node} {token : Token} :
    token ∈ node.tokens ↔ ∃ place ∈ node.postorder, .token token ∈ place.slots := by
  induction node using below_induction with
  | step node inductionHypothesis =>
      rw [mem_tokens_iff, postorder_eq]
      simp only [List.mem_append, List.mem_flatMap, List.mem_singleton]
      constructor
      · rintro ⟨slot, present, below⟩
        cases slot with
        | node child =>
            obtain ⟨place, placeBelow, held⟩ := (inductionHypothesis present).mp below
            exact ⟨place, .inl ⟨_, present, placeBelow⟩, held⟩
        | token other =>
            obtain rfl := List.mem_singleton.mp below
            exact ⟨node, .inr rfl, present⟩
        | absent => cases below
      · rintro ⟨place, ⟨slot, present, placeBelow⟩ | rfl, held⟩
        · cases slot with
          | node child =>
              exact ⟨_, present, (inductionHypothesis present).mpr ⟨place, placeBelow, held⟩⟩
          | token other => cases placeBelow
          | absent => cases placeBelow
        · exact ⟨_, held, List.mem_singleton_self token⟩

section Misfit

variable (kindOf : Token → TokenKind)

/-- Why a token of the kind given for it does not go into its slot, if so. -/
def Token.misfit? : Token → Option SlotError
  | .detached _ => none
  | token@(.held _ _ index parent) => do
    let spec ← parent.kind.layout[index]?
    match spec.shape with
    | .token kinds =>
      if kinds.contains (kindOf token) then none
      else some (.unexpectedKind parent.kind spec.name kinds (kindOf token))
    | .node _ | .list _ => none

def Slot.misfit? : Slot → Option SlotError
  | .token token => token.misfit? kindOf
  | .node _ | .absent => none

/-- What is wrong with the first token in a slot of a node that does not fit, if there is one. -/
def Node.misfit? (node : Node) : Option SlotError :=
  node.slots.findSome? (Slot.misfit? kindOf)

end Misfit

variable {kindOf : Token → TokenKind} {node : Node} {index : Nat}

theorem Token.misfit?_of_shape {token : Token} {spec : SlotSpec} {kinds : KindSet}
    (shown : node.slot? index = some (.token token)) (found : node.kind.layout[index]? = some spec)
    (shape : spec.shape = .token kinds) :
    token.misfit? kindOf = if kinds.contains (kindOf token) then none
      else some (.unexpectedKind node.kind spec.name kinds (kindOf token)) := by
  obtain ⟨_, _, rfl⟩ := Node.slot?_eq_token_iff.mp shown
  simp [misfit?, found, shape]

theorem Token.exists_of_misfit? {token : Token} {reason : SlotError}
    (shown : node.slot? index = some (.token token)) (misfit : token.misfit? kindOf = some reason) :
    ∃ spec kinds, node.kind.layout[index]? = some spec ∧ spec.shape = .token kinds ∧
      kinds.contains (kindOf token) = false ∧
      reason = .unexpectedKind node.kind spec.name kinds (kindOf token) := by
  cases found : node.kind.layout[index]? with
  | none =>
      obtain ⟨_, _, rfl⟩ := Node.slot?_eq_token_iff.mp shown
      simp [misfit?, found] at misfit
  | some spec =>
      cases shape : spec.shape with
      | token kinds =>
          rw [misfit?_of_shape shown found shape] at misfit
          refine ⟨spec, kinds, rfl, shape, ?_⟩
          cases fits : kinds.contains (kindOf token) with
          | true => simp [fits] at misfit
          | false => simpa [fits, eq_comm] using misfit
      | node kinds | list elements =>
          obtain ⟨_, _, rfl⟩ := Node.slot?_eq_token_iff.mp shown
          simp [misfit?, found, shape] at misfit

/-- What is wrong with a node is wrong with the lowest of its slots that has a misfit. -/
theorem Node.exists_of_misfit? {reason : SlotError} (misfit : node.misfit? kindOf = some reason) :
    ∃ index token spec kinds, node.slot? index = some (.token token) ∧
      node.kind.layout[index]? = some spec ∧ spec.shape = .token kinds ∧
      kinds.contains (kindOf token) = false ∧
      reason = .unexpectedKind node.kind spec.name kinds (kindOf token) ∧
      ∀ sooner < index, ∀ other, node.slot? sooner = some (.token other) →
        other.misfit? kindOf = none := by
  obtain ⟨before, slot, behind, slots_eq, slotMisfit, beforeFit⟩ :=
    List.findSome?_eq_some_iff.mp misfit
  have shown : node.slot? before.length = some slot := by
    rw [← node.slots_getElem?, slots_eq, List.getElem?_append_right (Nat.le_refl _)]
    simp
  cases slot with
  | node child => cases slotMisfit
  | absent => cases slotMisfit
  | token token =>
      obtain ⟨spec, kinds, found, shape, unfit, rfl⟩ :=
        Token.exists_of_misfit? shown slotMisfit
      refine ⟨_, token, spec, kinds, shown, found, shape, unfit, rfl, ?_⟩
      intro sooner lower other otherShown
      rw [← node.slots_getElem?, slots_eq, List.getElem?_append_left lower] at otherShown
      exact beforeFit _ (List.mem_of_getElem? otherShown)

/-- Some node has a misfit exactly when some token does. -/
theorem Node.exists_misfit_iff :
    (∃ place ∈ node.postorder, (place.misfit? kindOf).isSome) ↔
      ∃ token ∈ node.tokens, (token.misfit? kindOf).isSome := by
  simp only [misfit?, List.findSome?_isSome_iff, mem_tokens_iff_postorder]
  constructor
  · rintro ⟨place, placeBelow, slot, present, misfit⟩
    cases slot with
    | token token => exact ⟨token, ⟨place, placeBelow, present⟩, misfit⟩
    | node child => cases misfit
    | absent => cases misfit
  · rintro ⟨token, ⟨place, placeBelow, present⟩, misfit⟩
    exact ⟨place, placeBelow, _, present, misfit⟩

/-- What may come in place of a slot when tokens are given by kind. -/
inductive Revised (kindOf : Token → TokenKind) : Slot → Green.Slot → Prop
  | absent : Revised kindOf .absent .absent
  | token {token : Token} {green : Green.Token} :
      green.kind = kindOf token → Revised kindOf (.token token) (.token green)
  | node {node : Node} {green : Green.Node} :
      green.kind = node.kind → List.Forall₂ (Revised kindOf) node.slots green.slots →
      Revised kindOf (.node node) (.node green)

namespace Revised

variable {slot : Slot} {value : Green.Slot} {spec : SlotSpec}

/-- What a spec admits other than a token, it admits with tokens of any kinds below. -/
theorem admits (revised : Revised kindOf slot value) (noToken : ∀ token, slot ≠ .token token)
    (admitted : spec.Admits (Green.Slot.description slot.green)) :
    spec.Admits (Green.Slot.description value) := by
  cases revised with
  | absent => exact admitted
  | @token token _ _ => exact absurd rfl (noToken token)
  | @node node _ kind_eq slots =>
      refine SlotSpec.admits_node_of_alike kind_eq ?_ admitted
      refine forall_mem_of_forall₂ slots fun slot present value slotRevised => ?_
      refine ⟨slot.green, Node.green_mem_slots present, ?_⟩
      intro element isNode
      cases slotRevised with
      | node sameKind _ =>
          cases isNode
          exact ⟨_, rfl, sameKind⟩
      | token _ => cases isNode
      | absent => cases isNode

/-- Where the old value was admitted, the new one is refused for the misfit only. -/
theorem check_eq (revised : Revised kindOf slot value) (shown : node.slot? index = some slot)
    (found : node.kind.layout[index]? = some spec)
    (admitted : spec.Admits (Green.Slot.description slot.green)) :
    spec.check node.kind value = (slot.misfit? kindOf).elim (.ok ()) .error := by
  cases slot with
  | absent => exact (spec.check_eq_ok_iff _ _).mpr (revised.admits (by simp) admitted)
  | node child => exact (spec.check_eq_ok_iff _ _).mpr (revised.admits (by simp) admitted)
  | token token =>
      cases revised with
      | token kind_eq =>
          cases admitted with
          | token shape member =>
              simp only [SlotSpec.check, shape, requireKind, kind_eq, Slot.misfit?,
                Token.misfit?_of_shape shown found shape]
              split <;> rfl

end Revised

variable {made : List Green.Slot} {root : Green.Node} {workspace : Workspace}

/-- Lists take nodes of all kinds, and none of their tokens is checked. -/
theorem Node.misfit?_of_list (isList : node.kind = .list) : node.misfit? kindOf = none := by
  rw [misfit?, List.findSome?_eq_none_iff]
  intro slot present
  obtain ⟨index, shown⟩ := mem_slots_iff.mp present
  cases slot with
  | node child => rfl
  | absent => rfl
  | token token =>
      obtain ⟨_, _, rfl⟩ := slot?_eq_token_iff.mp shown
      simp [Slot.misfit?, Token.misfit?, isList, NodeKind.layout]

/-- A list built anew is never refused. -/
theorem Node.checkSlots_of_revised_list {values : List Green.Slot} (isList : node.kind = .list)
    (fits : node.kind.checkSlots node.green.slots = .ok ())
    (revised : List.Forall₂ (Revised kindOf) node.slots values) :
    node.kind.checkSlots values = .ok () := by
  rw [NodeKind.checkSlots_eq_ok_iff, NodeKind.Admits, if_pos isList, List.forall_mem_map,
    ← node.map_green_slots, List.forall_mem_map] at fits
  rw [NodeKind.checkSlots_eq_ok_iff, NodeKind.Admits, if_pos isList, List.forall_mem_map]
  refine forall_mem_of_forall₂ revised fun slot present value slotRevised => ?_
  obtain ⟨_, isNode⟩ := fits slot present
  cases slotRevised with
  | node _ _ => exact ⟨_, rfl⟩
  | token _ => cases isNode
  | absent => cases isNode

/-- A node built anew is refused for its own misfit only, whatever is wrong below. -/
theorem Node.checkSlots_of_revised {values : List Green.Slot}
    (fits : node.kind.checkSlots node.green.slots = .ok ())
    (revised : List.Forall₂ (Revised kindOf) node.slots values) :
    node.kind.checkSlots values = (node.misfit? kindOf).elim (.ok ()) .error := by
  by_cases isList : node.kind = .list
  · rw [misfit?_of_list isList]
    exact checkSlots_of_revised_list isList fits revised
  · have admitted := fits
    rw [NodeKind.checkSlots_eq_ok_iff_admitAll, NodeKind.specs_of_ne_list isList] at admitted
    have sameLength : node.kind.layout.length = values.length := by
      rw [admitted.length_eq, ← node.map_green_slots, List.length_map, revised.length_eq]
    rw [NodeKind.checkSlots, NodeKind.specs_of_ne_list isList, if_pos sameLength]
    refine SlotSpec.checkAll_eq_elim (List.forall₂_iff_get.mpr ⟨?_, fun index inSlots inZip => ?_⟩)
    · rw [List.length_zip, sameLength, Nat.min_self, revised.length_eq]
    · rw [List.length_zip, Nat.lt_min] at inZip
      have shown := node.slots_getElem? index ▸ List.getElem?_eq_getElem inSlots
      have found := List.getElem?_eq_getElem inZip.1
      have checked := (revised.get inSlots inZip.2).check_eq shown found
        (admitted.get found (slots_getElem?_of_slot? shown))
      simpa using checked

end Red

end SyntaxTree
