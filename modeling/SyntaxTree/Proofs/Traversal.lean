import SyntaxTree.Proofs.Place
import SyntaxTree.Red.Fold
import SyntaxTree.Red.Walk

/-!
What a walk shows. The events of a node are a recursion over its slots; a walk in progress still has
to show the rest of the events of every node it has entered. Main statement: a walk that is run to
its end shows the events of the node where it starts, and ends within its bound.
-/

namespace SyntaxTree.Red

namespace Cursor

/-- The slots still to come. -/
def ahead (cursor : Cursor) : List Slot := (cursor.node.slots.take cursor.back).drop cursor.front

def advance (cursor : Cursor) : Cursor := { cursor with front := cursor.front + 1 }

/-- Both ends are in range and in order. -/
structure Valid (cursor : Cursor) : Prop where
  front_le_back : cursor.front ≤ cursor.back
  back_le_count : cursor.back ≤ cursor.node.slotCount

variable {cursor : Cursor} {slot : Slot} {rest : List Slot}

theorem valid_ofNode (node : Node) : (ofNode node).Valid := ⟨Nat.zero_le _, Nat.le_refl _⟩

@[simp]
theorem ahead_ofNode (node : Node) : (ofNode node).ahead = node.slots := by
  rw [ahead, ofNode, List.drop_zero, ← node.length_slots, List.take_length]

@[simp]
theorem ahead_advance (cursor : Cursor) : cursor.advance.ahead = cursor.ahead.tail := by
  rw [ahead, ahead, List.tail_drop]
  rfl

theorem length_ahead (valid : cursor.Valid) : cursor.ahead.length = cursor.remaining := by
  have inRange := valid.back_le_count
  rw [ahead, List.length_drop, List.length_take, Node.length_slots, Nat.min_eq_left inRange]
  rfl

theorem slot?_of_cons (ahead_eq : cursor.ahead = slot :: rest) :
    cursor.front < cursor.back ∧ cursor.node.slot? cursor.front = some slot := by
  have found : cursor.ahead[0]? = some slot := by rw [ahead_eq]; rfl
  rw [ahead, List.getElem?_drop, Nat.add_zero, List.getElem?_take, Node.slots_getElem?] at found
  by_cases before : cursor.front < cursor.back
  · rw [if_pos before] at found
    exact ⟨before, found⟩
  · rw [if_neg before] at found
    cases found

theorem next?_of_cons (ahead_eq : cursor.ahead = slot :: rest) :
    cursor.next? = some (slot, cursor.advance) := by
  obtain ⟨before, found⟩ := slot?_of_cons ahead_eq
  rw [next?, if_neg (Nat.ne_of_lt before), found]
  rfl

theorem Valid.advance (valid : cursor.Valid) (ahead_eq : cursor.ahead = slot :: rest) :
    cursor.advance.Valid := by
  have count := length_ahead valid
  rw [ahead_eq, List.length_cons, remaining] at count
  exact ⟨by simp only [Cursor.advance]; omega, valid.back_le_count⟩

theorem seek_of_ended (valid : cursor.Valid) (ended : cursor.ahead = []) (wanted : Slot → Bool) :
    cursor.seek wanted = none := by
  rw [seek, ← length_ahead valid, ended]
  rfl

theorem seek_of_cons (valid : cursor.Valid) (ahead_eq : cursor.ahead = slot :: rest)
    (wanted : Slot → Bool) :
    cursor.seek wanted =
      if wanted slot then some (slot, cursor.advance) else cursor.advance.seek wanted := by
  have advanced := valid.advance ahead_eq
  rw [seek, seek, ← length_ahead valid, ← length_ahead advanced, ahead_advance, ahead_eq,
    List.length_cons, seekWithin, next?_of_cons ahead_eq]
  rfl

/-- Seeking passes over unwanted slots up to a wanted one or to the end. -/
theorem seek_cases (valid : cursor.Valid) (wanted : Slot → Bool) :
    (cursor.seek wanted = none ∧ ∀ slot ∈ cursor.ahead, wanted slot = false) ∨
      ∃ passed slot later, cursor.seek wanted = some (slot, later) ∧
        cursor.ahead = passed ++ slot :: later.ahead ∧ (∀ other ∈ passed, wanted other = false) ∧
        wanted slot = true ∧ later.Valid ∧ later.node = cursor.node := by
  -- Seeking counts down the slots still to come, so these are what the induction is on.
  induction ahead_eq : cursor.ahead generalizing cursor with
  | nil => exact .inl ⟨seek_of_ended valid ahead_eq wanted, List.forall_mem_nil _⟩
  | cons slot rest inductionHypothesis =>
      have advanced := valid.advance ahead_eq
      have rest_eq : cursor.advance.ahead = rest := by rw [ahead_advance, ahead_eq, List.tail_cons]
      rw [seek_of_cons valid ahead_eq]
      cases chosen : wanted slot with
      | true =>
          rw [if_pos rfl]
          exact .inr ⟨[], slot, _, rfl, by rw [rest_eq, List.nil_append], List.forall_mem_nil _,
            chosen, advanced, rfl⟩
      | false =>
          rw [if_neg Bool.false_ne_true]
          simp only [List.forall_mem_cons]
          rcases inductionHypothesis advanced rest_eq with
            ⟨ended, unwanted⟩ | ⟨passed, found, later, reached, split, unwanted, taken⟩
          · exact .inl ⟨ended, chosen, unwanted⟩
          · refine .inr ⟨slot :: passed, found, later, reached, by rw [split, List.cons_append], ?_,
              taken⟩
            exact List.forall_mem_cons.mpr ⟨chosen, unwanted⟩

end Cursor

/-- The events of a node: it is entered, its slots show theirs in order, and it is left. -/
def Node.events (showsTokens : Bool) (node : Node) : List WalkEvent :=
  node.fold
    (fun self parts =>
      .enter self :: ((parts ()).flatMap fun part => part.elim id id []) ++ [.leave self])
    (fun token => if showsTokens then [.token token] else [])

def Slot.events (showsTokens : Bool) : Slot → List WalkEvent
  | .node node => node.events showsTokens
  | .token token => if showsTokens then [.token token] else []
  | .absent => []

theorem Node.events_eq (showsTokens : Bool) (node : Node) :
    node.events showsTokens =
      .enter node :: node.slots.flatMap (Slot.events showsTokens) ++ [WalkEvent.leave node] := by
  rw [events, fold_eq, List.flatMap_map]
  congr 2
  refine List.flatMap_congr fun slot _ => ?_
  cases slot <;> rfl

theorem length_events_le_of_slots {showsTokens : Bool} {slots : List Slot}
    (below : ∀ {node}, .node node ∈ slots →
      (node.events showsTokens).length ≤ 2 * node.green.size) :
    (slots.flatMap (Slot.events showsTokens)).length ≤
      2 * Green.sizeOfSlots (slots.map Slot.green) := by
  induction slots with
  | nil => exact Nat.le_refl 0
  | cons slot rest inductionHypothesis =>
      have restBound := inductionHypothesis fun present => below (List.mem_cons_of_mem _ present)
      have slotBound : (slot.events showsTokens).length ≤ 2 * Green.sizeOfSlot slot.green := by
        cases slot with
        | node node => exact below List.mem_cons_self
        | token token => cases showsTokens <;> simp [Slot.events, Slot.green, Slot.map, Green.sizeOfSlot]
        | absent => exact Nat.le_refl 0
      rw [List.flatMap_cons, List.length_append, List.map_cons, Green.sizeOfSlots]
      omega

/-- A node is entered and left once, and a token is shown at most once. -/
theorem Node.length_events_le (showsTokens : Bool) (node : Node) :
    (node.events showsTokens).length ≤ 2 * node.green.size := by
  induction node using below_induction with
  | step node inductionHypothesis =>
      have slotsBound := length_events_le_of_slots inductionHypothesis
      rw [node.map_green_slots] at slotsBound
      rw [events_eq, Green.Node.size_eq, List.length_append, List.length_cons,
        List.length_singleton]
      omega

namespace Cursor

/-- The events still to come from a node that was entered. -/
def events (showsTokens : Bool) (cursor : Cursor) : List WalkEvent :=
  cursor.ahead.flatMap (Slot.events showsTokens) ++ [.leave cursor.node]

theorem events_ofNode (showsTokens : Bool) (node : Node) :
    .enter node :: (ofNode node).events showsTokens = node.events showsTokens := by
  rw [events, ahead_ofNode, Node.events_eq]
  rfl

end Cursor

namespace Walk

variable {walk : Walk}

/-- The events still to come if nothing is skipped. -/
def ahead (walk : Walk) : List WalkEvent :=
  walk.pending.elim [] (·.events walk.showsTokens) ++
    walk.opened.flatMap (·.events walk.showsTokens)

def Valid (walk : Walk) : Prop := ∀ cursor ∈ walk.opened, cursor.Valid

theorem events_of_not_shows {slots : List Slot}
    (unwanted : ∀ slot ∈ slots, walk.shows slot = false) :
    slots.flatMap (Slot.events walk.showsTokens) = [] := by
  rw [List.flatMap_eq_nil_iff]
  intro slot present
  have hidden := unwanted slot present
  cases slot with
  | node node => cases hidden
  | token token =>
      have noTokens : walk.showsTokens = false := hidden
      rw [Slot.events, noTokens]
      rfl
  | absent => rfl

/-- A walk goes on at the innermost open node: it shows what the next wanted slot there gives, or
leaves that node. -/
theorem next?_opened {showsTokens : Bool} {cursor : Cursor} {outer : List Cursor}
    (innermost : cursor.Valid) (others : ∀ cursor ∈ outer, cursor.Valid) :
    ∃ event later, Walk.next? ⟨showsTokens, none, cursor :: outer⟩ = some (event, later) ∧
      Walk.ahead ⟨showsTokens, none, cursor :: outer⟩ = event :: later.ahead ∧
      later.Valid ∧ later.showsTokens = showsTokens := by
  have ahead_eq : Walk.ahead ⟨showsTokens, none, cursor :: outer⟩ =
      cursor.events showsTokens ++ Walk.ahead ⟨showsTokens, none, outer⟩ := rfl
  rcases cursor.seek_cases innermost (Walk.shows ⟨showsTokens, none, cursor :: outer⟩) with
    ⟨ended, unwanted⟩ | ⟨passed, slot, rest, found, split, unwanted, wanted, restValid, same⟩
  · refine ⟨.leave cursor.node, ⟨showsTokens, none, outer⟩, ?_, ?_, others, rfl⟩
    · simp only [next?, ended]
    · rw [ahead_eq, Cursor.events, events_of_not_shows unwanted]
      rfl
  · have restOpen : Walk.Valid ⟨showsTokens, none, rest :: outer⟩ :=
      List.forall_mem_cons.mpr ⟨restValid, others⟩
    have split_eq : Walk.ahead ⟨showsTokens, none, cursor :: outer⟩ =
        slot.events showsTokens ++ Walk.ahead ⟨showsTokens, none, rest :: outer⟩ := by
      rw [ahead_eq, Cursor.events, split, List.flatMap_append, events_of_not_shows unwanted,
        List.flatMap_cons, ← same]
      simp [ahead, Cursor.events]
    cases slot with
    | node node =>
        refine ⟨.enter node, ⟨showsTokens, none, .ofNode node :: rest :: outer⟩, ?_, ?_,
          List.forall_mem_cons.mpr ⟨Cursor.valid_ofNode node, restOpen⟩, rfl⟩
        · simp only [next?, found]
        · rw [split_eq, Slot.events, ← Cursor.events_ofNode]
          rfl
    | token token =>
        have shown : showsTokens = true := wanted
        refine ⟨.token token, ⟨showsTokens, none, rest :: outer⟩, ?_, ?_, restOpen, rfl⟩
        · simp only [next?, found]
        · rw [split_eq, Slot.events, if_pos shown]
          rfl
    | absent => cases wanted

/-- A walk shows the first of the events still to come, unless none are. -/
theorem next?_cases (valid : walk.Valid) :
    (walk.next? = none ∧ walk.ahead = []) ∨
      ∃ event later, walk.next? = some (event, later) ∧ walk.ahead = event :: later.ahead ∧
        later.Valid ∧ later.showsTokens = walk.showsTokens := by
  obtain ⟨showsTokens, pending, opened⟩ := walk
  cases pending with
  | some node =>
      refine .inr ⟨_, _, rfl, ?_, List.forall_mem_cons.mpr ⟨Cursor.valid_ofNode node, valid⟩, rfl⟩
      rw [ahead, ahead, Option.elim_some, ← Cursor.events_ofNode]
      rfl
  | none =>
      cases opened with
      | nil => exact .inl ⟨rfl, rfl⟩
      | cons cursor outer =>
          obtain ⟨innermost, others⟩ := List.forall_mem_cons.mp valid
          exact .inr (next?_opened innermost others)

theorem runWithin_eq (valid : walk.Valid) {steps : Nat} (enough : walk.ahead.length ≤ steps)
    (position : Nat) : runWithin (fun _ => false) steps position walk = (walk.ahead, .ok ()) := by
  induction steps generalizing walk position with
  | zero =>
      rw [List.length_eq_zero_iff.mp (Nat.le_zero.mp enough)]
      rfl
  | succ steps inductionHypothesis =>
      rcases next?_cases valid with ⟨ended, ahead_eq⟩ | ⟨event, later, shown, ahead_eq, laterValid, _⟩
      · rw [runWithin, ended, ahead_eq]
      · rw [ahead_eq, List.length_cons] at enough
        have run := inductionHypothesis laterValid (Nat.le_of_succ_le_succ enough) (position + 1)
        simp only [runWithin, shown, Bool.false_eq_true, if_false, run, ahead_eq]

/-- A walk shows the events of the node where it starts. -/
theorem toList_start (showsTokens : Bool) (node : Node) :
    (start showsTokens node).toList = node.events showsTokens := by
  have valid : (start showsTokens node).Valid := List.forall_mem_nil _
  have ahead_eq : (start showsTokens node).ahead = node.events showsTokens := List.append_nil _
  have enough : (start showsTokens node).ahead.length ≤ (start showsTokens node).bound := by
    rw [ahead_eq]
    exact node.length_events_le showsTokens
  rw [toList, run, runWithin_eq valid enough, ahead_eq]

end Walk

end SyntaxTree.Red
