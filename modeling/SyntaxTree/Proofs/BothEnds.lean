import SyntaxTree.Proofs.Narrow
import SyntaxTree.Proofs.Traversal

/-!
Taking slots from both ends. The slots still to come are a list, and a call takes one off its front
or its back. Main statement: whatever the order of the calls, a cursor answers as the list of all
slots does; it never reads a slot that is not there, and it gives every slot once.
-/

namespace SyntaxTree.Red

namespace Direction

variable {Item : Type}

/-- Takes an item off one end of a list. -/
def pop? : Direction → List Item → Option (Item × List Item)
  | .forward, items => items.head?.map (·, items.tail)
  | .backward, items => items.getLast?.map (·, items.dropLast)

/-- Puts an item on the end that `pop?` takes it off. -/
def push : Direction → Item → List Item → List Item
  | .forward, item, items => item :: items
  | .backward, item, items => items ++ [item]

/-- What a list answers when items are taken off its ends, with the number of items left after each
call. -/
def popEach : List Item → List Direction → List (Option Item × Nat)
  | _, [] => []
  | items, direction :: rest =>
    match direction.pop? items with
    | none => (none, items.length) :: popEach items rest
    | some (item, left) => (some item, left.length) :: popEach left rest

/-- The items that the calls in one direction were answered with. -/
def given (direction : Direction) (calls : List Direction) (answers : List (Option Item × Nat)) :
    List Item :=
  ((calls.zip answers).filter (·.1 = direction)).filterMap (·.2.1)

@[simp]
theorem pop?_nil (direction : Direction) : direction.pop? ([] : List Item) = none := by
  cases direction <;> rfl

@[simp]
theorem pop?_push (direction : Direction) (item : Item) (items : List Item) :
    direction.pop? (direction.push item items) = some (item, items) := by
  cases direction <;> simp [pop?, push]

@[simp]
theorem length_push (direction : Direction) (item : Item) (items : List Item) :
    (direction.push item items).length = items.length + 1 := by
  cases direction <;> simp [push]

theorem eq_nil_or_push (direction : Direction) (items : List Item) :
    items = [] ∨ ∃ item left, items = direction.push item left := by
  cases direction with
  | forward =>
      cases items with
      | nil => exact .inl rfl
      | cons item left => exact .inr ⟨item, left, rfl⟩
  | backward =>
      rcases List.eq_nil_or_concat items with rfl | ⟨left, item, rfl⟩
      · exact .inl rfl
      · exact .inr ⟨item, left, by simp [push]⟩

theorem popEach_nil (direction : Direction) (rest : List Direction) :
    popEach ([] : List Item) (direction :: rest) = (none, 0) :: popEach [] rest := by
  simp [popEach]

theorem popEach_push (direction : Direction) (item : Item) (left : List Item)
    (rest : List Direction) :
    popEach (direction.push item left) (direction :: rest) =
      (some item, left.length) :: popEach left rest := by
  simp [popEach]

theorem given_cons (direction call : Direction) (calls : List Direction) (found : Option Item)
    (count : Nat) (answers : List (Option Item × Nat)) :
    direction.given (call :: calls) ((found, count) :: answers) =
      if call = direction then found.toList ++ direction.given calls answers
      else direction.given calls answers := by
  rw [given, List.zip_cons_cons, List.filter_cons]
  by_cases same : call = direction
  · cases found <;> simp [same, given]
  · simp [same, given]

/-- Every call takes one item until there are none, whichever end it is for. -/
theorem counts_popEach (items : List Item) (calls : List Direction) :
    (popEach items calls).map (fun answer => (answer.1.isSome, answer.2)) =
      (List.range calls.length).map fun index =>
        (decide (index < items.length), items.length - (index + 1)) := by
  induction calls generalizing items with
  | nil => rfl
  | cons direction rest inductionHypothesis =>
      rw [List.length_cons, List.range_succ_eq_map, List.map_cons, List.map_map]
      rcases eq_nil_or_push direction items with rfl | ⟨item, left, rfl⟩
      · rw [popEach_nil, List.map_cons, inductionHypothesis]
        simp [Function.comp_def]
      · rw [popEach_push, List.map_cons, inductionHypothesis]
        simp [Function.comp_def]

/-- What was taken off the front, what is left, and what was taken off the back make up the list. -/
theorem exists_left_of_popEach (items : List Item) (calls : List Direction) :
    ∃ left : List Item, forward.given calls (popEach items calls) ++ left ++
        (backward.given calls (popEach items calls)).reverse = items ∧
      left.length = items.length - calls.length := by
  induction calls generalizing items with
  | nil => exact ⟨items, by simp [given], rfl⟩
  | cons direction rest inductionHypothesis =>
      rcases eq_nil_or_push direction items with rfl | ⟨item, others, rfl⟩
      · obtain ⟨left, split, count⟩ := inductionHypothesis []
        refine ⟨left, ?_, by simpa using count⟩
        simpa [popEach_nil, given_cons] using split
      · obtain ⟨left, split, count⟩ := inductionHypothesis others
        refine ⟨left, ?_, by rw [length_push, List.length_cons, count]; omega⟩
        rw [popEach_push, given_cons, given_cons]
        cases direction with
        | forward => simpa [push] using split
        | backward => simpa [push] using congrArg (backward.push item) split

end Direction

namespace Cursor

/-- A call that fails if it reads a slot that is not there or counts below zero. -/
def checkedTake? (cursor : Cursor) (direction : Direction) : Option (Option Slot × Cursor) :=
  if cursor.front = cursor.back then
    some (none, cursor)
  else
    match direction with
    | .forward => do
      let slot ← cursor.node.slot? cursor.front
      return (some slot, { cursor with front := cursor.front + 1 })
    | .backward => do
      let last ← Narrow.sub? cursor.back 1
      let slot ← cursor.node.slot? last
      return (some slot, { cursor with back := last })

/-- What a cursor answers if no call fails, with the number of slots left after each call. -/
def checkedAnswers? : Cursor → List Direction → Option (List (Option Slot × Nat))
  | _, [] => some []
  | cursor, direction :: rest => do
    let (found, later) ← cursor.checkedTake? direction
    let left ← Narrow.sub? later.back later.front
    let others ← checkedAnswers? later rest
    return (found, left) :: others

def retreat (cursor : Cursor) : Cursor := { cursor with back := cursor.back - 1 }

variable {cursor : Cursor}

theorem ahead_eq_nil_iff (valid : cursor.Valid) :
    cursor.ahead = [] ↔ cursor.front = cursor.back := by
  have inOrder := valid.front_le_back
  rw [← List.length_eq_zero_iff, length_ahead valid, remaining]
  omega

theorem exists_ahead_eq_concat (valid : cursor.Valid) (before : cursor.front < cursor.back) :
    ∃ slot, cursor.node.slot? (cursor.back - 1) = some slot ∧
      cursor.ahead = cursor.retreat.ahead ++ [slot] := by
  have back_le := valid.back_le_count
  have last_lt : cursor.back - 1 < cursor.node.slots.length := by
    rw [Node.length_slots]
    omega
  have taken : cursor.node.slots.take cursor.back =
      cursor.node.slots.take (cursor.back - 1) ++ [cursor.node.slots[cursor.back - 1]] := by
    rw [← List.take_succ_eq_append_getElem last_lt, Nat.sub_add_cancel (Nat.one_le_of_lt before)]
  refine ⟨cursor.node.slots[cursor.back - 1], ?_, ?_⟩
  · rw [← Node.slots_getElem?, List.getElem?_eq_getElem last_lt]
  · rw [ahead, taken, List.drop_append_of_le_length]
    · rfl
    · rw [List.length_take]
      omega

theorem take?_of_ended (ended : cursor.front = cursor.back) (direction : Direction) :
    cursor.take? direction = none ∧ cursor.checkedTake? direction = some (none, cursor) := by
  cases direction <;> simp [take?, next?, nextBack?, checkedTake?, ended]

/-- A call before the end takes a slot off that end of the slots still to come which it is for. -/
theorem exists_take? (valid : cursor.Valid) (before : cursor.front < cursor.back)
    (direction : Direction) :
    ∃ slot later, cursor.take? direction = some (slot, later) ∧
      cursor.checkedTake? direction = some (some slot, later) ∧
      cursor.ahead = direction.push slot later.ahead ∧ later.Valid := by
  have notEnded : cursor.front ≠ cursor.back := Nat.ne_of_lt before
  cases direction with
  | forward =>
      obtain ⟨slot, rest, ahead_eq⟩ :=
        List.exists_cons_of_ne_nil (mt (ahead_eq_nil_iff valid).mp notEnded)
      refine ⟨slot, cursor.advance, next?_of_cons ahead_eq, ?_, ?_, valid.advance ahead_eq⟩
      · simp [checkedTake?, notEnded, (slot?_of_cons ahead_eq).2, advance]
      · rw [ahead_advance, ahead_eq]
        rfl
  | backward =>
      obtain ⟨slot, shown, ahead_eq⟩ := exists_ahead_eq_concat valid before
      have positive : 1 ≤ cursor.back := Nat.one_le_of_lt before
      refine ⟨slot, cursor.retreat, ?_, ?_, ahead_eq, ?_, ?_⟩
      · simp [take?, nextBack?, notEnded, shown, retreat]
      · simp [checkedTake?, notEnded, Narrow.sub?_eq positive, shown, retreat]
      · exact Nat.le_sub_one_of_lt before
      · exact Nat.le_trans (Nat.sub_le _ _) valid.back_le_count

/-- A cursor answers as the list of the slots still to come, and no call fails. -/
theorem answers_eq_popEach (valid : cursor.Valid) (calls : List Direction) :
    cursor.answers calls = Direction.popEach cursor.ahead calls ∧
      cursor.checkedAnswers? calls = some (Direction.popEach cursor.ahead calls) := by
  induction calls generalizing cursor with
  | nil => exact ⟨rfl, rfl⟩
  | cons direction rest inductionHypothesis =>
      rcases Nat.lt_or_eq_of_le valid.front_le_back with before | ended
      · obtain ⟨slot, later, taken, checked, ahead_eq, laterValid⟩ :=
          exists_take? valid before direction
        obtain ⟨answers_eq, checkedAnswers_eq⟩ := inductionHypothesis laterValid
        have count := Narrow.sub?_eq laterValid.front_le_back
        rw [ahead_eq, Direction.popEach_push, length_ahead laterValid]
        constructor
        · simp [answers, taken, answers_eq]
        · simp [checkedAnswers?, checked, checkedAnswers_eq, count, remaining]
      · obtain ⟨taken, checked⟩ := take?_of_ended ended direction
        obtain ⟨answers_eq, checkedAnswers_eq⟩ := inductionHypothesis valid
        have nothing : cursor.ahead = [] := (ahead_eq_nil_iff valid).mpr ended
        rw [nothing] at answers_eq checkedAnswers_eq
        rw [nothing, Direction.popEach_nil]
        constructor
        · simp [answers, taken, answers_eq, remaining, ended]
        · simp [checkedAnswers?, checked, checkedAnswers_eq, Narrow.sub?, ended]

end Cursor

/-- Every slot within the count of a node can be read, and these are its slots. -/
theorem Node.map_slot_range (node : Node) :
    (List.range node.slotCount).map node.slot = node.slots.map Except.ok := by
  rw [← length_slots]
  refine List.ext_getElem (by simp) fun index inCount inRange => ?_
  rw [List.length_map] at inRange
  have shown : node.slot? index = some node.slots[index] := by
    rw [← slots_getElem?, List.getElem?_eq_getElem inRange]
  rw [List.getElem_map, List.getElem_range, List.getElem_map]
  exact slot_eq_ok_iff.mpr shown

/-- Calls for the slots of a node from either end, in any order, are answered as by taking items off
the ends of the list of its slots. No read is out of range and no count falls below zero. Each call
gives a slot and leaves one fewer until there are none, and from then on every call is at the end.
What the calls gave from the front, what they left, and what they gave from the back, turned around,
are the slots of the node. -/
theorem cursors_answer_as_lists (node : Node) (calls : List Direction) :
    (List.range node.slotCount).map node.slot = node.slots.map Except.ok ∧
    (Cursor.ofNode node).remaining = node.slotCount ∧
    (Cursor.ofNode node).answers calls = Direction.popEach node.slots calls ∧
    (Cursor.ofNode node).checkedAnswers? calls = some ((Cursor.ofNode node).answers calls) ∧
    ((Cursor.ofNode node).answers calls).map (fun answer => (answer.1.isSome, answer.2)) =
      (List.range calls.length).map (fun index =>
        (decide (index < node.slotCount), node.slotCount - (index + 1))) ∧
    ∃ left : List Slot,
      Direction.forward.given calls ((Cursor.ofNode node).answers calls) ++ left ++
        (Direction.backward.given calls ((Cursor.ofNode node).answers calls)).reverse =
          node.slots ∧
      left.length = node.slotCount - calls.length := by
  obtain ⟨answers_eq, checkedAnswers_eq⟩ :=
    Cursor.answers_eq_popEach (Cursor.valid_ofNode node) calls
  rw [Cursor.ahead_ofNode] at answers_eq checkedAnswers_eq
  rw [answers_eq, ← node.length_slots]
  exact ⟨node.length_slots ▸ node.map_slot_range, node.length_slots.symm, rfl, checkedAnswers_eq,
    Direction.counts_popEach node.slots calls, Direction.exists_left_of_popEach node.slots calls⟩

open Green.Sample (call) in
example : ((Cursor.ofNode (.root call)).answers
      [.backward, .forward, .backward, .forward, .backward]).map
        (fun answer => (answer.1.bind Slot.kind?, answer.2)) =
    [(some (.token .closeParen), 3), (some (.node .simpleNameReference), 2),
      (some (.node .list), 1), (some (.token .openParen), 0), (none, 0)] := rfl

end SyntaxTree.Red
