import SyntaxTree.Proofs.Positions
import SyntaxTree.Red.Query

/-!
The tokens at an offset. Ranges that lie end to end meet an offset at most twice, and twice only
where one ends and the next starts; this holds of the slots of a node and of the tokens of a walk
alike. Main statement: the answer about an offset is read off the tokens of the walk that touch it,
and joining the answers of two slots never drops one of them.
-/

namespace SyntaxTree

namespace TextRange

/-- Whether a range that is not empty touches an offset. -/
def meets (offset : Nat) (range : TextRange) : Bool := !range.isEmpty && range.touches offset

theorem meets_iff {offset : Nat} {range : TextRange} :
    range.meets offset = true ↔
      range.start ≠ range.stop ∧ range.start ≤ offset ∧ offset ≤ range.stop := by
  simp [meets, isEmpty, touches]

/-- The items whose ranges meet an offset. An item without a range meets none. -/
def itemsAt {Item : Type} (range? : Item → Option TextRange) (offset : Nat) (items : List Item) :
    List Item :=
  items.filter fun item => (range? item).any (meets offset)

namespace Tile

theorem start_le_stop {start stop : Nat} {ranges : List TextRange} (tile : Tile start stop ranges) :
    start ≤ stop := by
  induction ranges generalizing start with
  | nil => exact Nat.le_of_eq tile
  | cons range rest inductionHypothesis =>
      obtain ⟨rfl, inOrder, restTile⟩ := tile
      exact Nat.le_trans inOrder (inductionHypothesis restTile)

theorem start_le {start stop : Nat} {ranges : List TextRange} {range : TextRange}
    (tile : Tile start stop ranges) (present : range ∈ ranges) : start ≤ range.start := by
  induction ranges generalizing start with
  | nil => cases present
  | cons first rest inductionHypothesis =>
      obtain ⟨rfl, inOrder, restTile⟩ := tile
      rcases List.mem_cons.mp present with rfl | later
      · exact Nat.le_refl _
      · exact Nat.le_trans inOrder (inductionHypothesis restTile later)

/-- When the ranges of items lie end to end, none of them meets an offset outside, and two do so only
strictly inside, where the one ends and the other starts. -/
theorem itemsAt_cases {Item : Type} {range? : Item → Option TextRange} {items : List Item}
    {start stop : Nat} (tile : Tile start stop (items.filterMap range?)) (offset : Nat) :
    (itemsAt range? offset items = [] ∧ (start = stop ∨ offset < start ∨ stop < offset)) ∨
    (∃ only, itemsAt range? offset items = [only] ∧
      start < stop ∧ start ≤ offset ∧ offset ≤ stop) ∨
    ∃ left right leftRange rightRange, itemsAt range? offset items = [left, right] ∧
      range? left = some leftRange ∧ range? right = some rightRange ∧
      leftRange.stop = offset ∧ rightRange.start = offset ∧ start < offset ∧ offset < stop := by
  unfold itemsAt
  induction items generalizing start with
  | nil => exact .inl ⟨rfl, .inl tile⟩
  | cons item rest inductionHypothesis =>
      cases ranged : range? item with
      | none =>
          rw [List.filterMap_cons_none ranged] at tile
          rw [List.filter_cons_of_neg (by simp [ranged])]
          exact inductionHypothesis tile
      | some range =>
          rw [List.filterMap_cons_some ranged] at tile
          obtain ⟨rfl, inOrder, restTile⟩ := tile
          have restInOrder := restTile.start_le_stop
          by_cases hit : range.meets offset = true
          · rw [List.filter_cons_of_pos (by simpa [ranged] using hit)]
            obtain ⟨notEmpty, startBefore, stopBehind⟩ := meets_iff.mp hit
            rcases inductionHypothesis restTile with ⟨noMore, _⟩ | ⟨next, oneMore, _, afterStop, _⟩ |
              ⟨_, _, _, _, _, _, _, _, _, afterStop, _⟩
            · exact .inr (.inl ⟨item, by rw [noMore], by omega, startBefore, by omega⟩)
            · have nextHit : next ∈ rest ∧ (range? next).any (meets offset) = true :=
                List.mem_filter.mp (by rw [oneMore]; exact List.mem_singleton_self next)
              obtain ⟨nextRange, nextRanged, nextMeets⟩ := (Option.any_eq_true _ _).mp nextHit.2
              have nextStart := restTile.start_le
                (List.mem_filterMap.mpr ⟨next, nextHit.1, nextRanged⟩)
              have nextBounds := meets_iff.mp nextMeets
              exact .inr (.inr ⟨item, next, range, nextRange, by rw [oneMore], ranged, nextRanged,
                by omega, by omega, by omega, by omega⟩)
            · omega
          · rw [List.filter_cons_of_neg (by simpa [ranged] using hit)]
            rw [meets_iff] at hit
            rcases inductionHypothesis restTile with ⟨none, outside⟩ | ⟨only, one, inside⟩ |
              ⟨left, right, leftRange, rightRange, two, leftRanged, rightRanged, leftStop,
                rightStart, afterStart, beforeStop⟩
            · exact .inl ⟨none, by omega⟩
            · exact .inr (.inl ⟨only, one, by omega⟩)
            · exact .inr (.inr ⟨left, right, leftRange, rightRange, two, leftRanged, rightRanged,
                leftStop, rightStart, by omega, beforeStop⟩)

end Tile

end TextRange

namespace Red

open TextRange (Tile itemsAt meets)

namespace TokenAtOffset

/-- The answer that gives the first two of some tokens. -/
def ofTokens : List Token → TokenAtOffset
  | [] => none
  | [only] => single only
  | left :: right :: _ => between left right

end TokenAtOffset

def Slot.range? : Slot → Option TextRange
  | .node node => some node.range
  | .token token => some token.range
  | .absent => none

/-- What a slot answers about an offset. A token is not asked whether it touches it. -/
def Slot.tokenAt (offset : Nat) : Slot → TokenAtOffset
  | .node node => node.tokenAt offset
  | .token token => .single token
  | .absent => .none

namespace Node

/-- The answers of those slots of a node that touch an offset, from left to right. -/
def answersAt (node : Node) (offset : Nat) : List TokenAtOffset :=
  (itemsAt Slot.range? offset node.slots).map (Slot.tokenAt offset)

/-- The tokens of a walk that have a width and touch an offset. -/
def tokensAt (node : Node) (offset : Nat) : List Token :=
  node.tokens.filter fun token =>
    decide (token.width ≠ 0 ∧ token.offset ≤ offset ∧ offset ≤ token.offset + token.width)

end Node

/-- A range with the answer of what is there, to be asked for. -/
abbrev Probe := TextRange × (Unit → TokenAtOffset)

def Token.probe (token : Token) : Probe := (token.range, fun _ => .single token)

/-- The fold behind the answer of a node. -/
def Node.probe (offset : Nat) (node : Node) : Probe :=
  node.fold
    (fun self found =>
      (self.range, fun _ =>
        if self.range.meets offset then
          .join ((((found ()).filterMap (·.present?)).filter (·.1.meets offset)).map (·.2 ()))
        else
          .none))
    Token.probe

def Slot.probe? (offset : Nat) (slot : Slot) : Option Probe :=
  (slot.map (Node.probe offset) Token.probe).present?

theorem Node.probe_eq (offset : Nat) (node : Node) :
    node.probe offset =
      (node.range, fun _ =>
        if node.range.meets offset then
          .join (((node.slots.filterMap (Slot.probe? offset)).filter (·.1.meets offset)).map (·.2 ()))
        else
          .none) := by
  rw [probe, fold_eq, List.filterMap_map]
  rfl

theorem Slot.probe?_eq (offset : Nat) (slot : Slot) :
    slot.probe? offset = slot.range?.map fun range => (range, fun _ => slot.tokenAt offset) := by
  cases slot with
  | node node =>
      have first : (node.probe offset).1 = node.range := by rw [Node.probe_eq]
      exact congrArg some (Prod.ext first rfl)
  | token token => rfl
  | absent => rfl

theorem answers_of_probes (offset : Nat) (slots : List Slot) :
    ((slots.filterMap (Slot.probe? offset)).filter (·.1.meets offset)).map (·.2 ()) =
      (itemsAt Slot.range? offset slots).map (Slot.tokenAt offset) := by
  unfold itemsAt
  induction slots with
  | nil => rfl
  | cons slot rest inductionHypothesis =>
      have probed := slot.probe?_eq offset
      cases ranged : slot.range? with
      | none => simp_all
      | some range =>
          rw [ranged, Option.map_some] at probed
          by_cases hit : range.meets offset = true
          · simp [probed, ranged, hit, inductionHypothesis]
          · simp [probed, ranged, hit, inductionHypothesis]

/-- The answer of a node in terms of the answers of its slots. -/
theorem Node.tokenAt_eq (node : Node) (offset : Nat) :
    node.tokenAt offset =
      if node.range.meets offset then .join (node.answersAt offset) else .none := by
  rw [answersAt, ← answers_of_probes]
  exact congrFun (congrArg Prod.snd (node.probe_eq offset)) ()

/-- The tokens below a slot that have a width and touch an offset. -/
def Slot.tokensAt (offset : Nat) (slot : Slot) : List Token :=
  itemsAt (fun token : Token => some token.range) offset slot.tokens

theorem Node.tokensAt_eq (node : Node) (offset : Nat) :
    node.tokensAt offset = itemsAt (fun token : Token => some token.range) offset node.tokens := by
  unfold Node.tokensAt itemsAt
  refine List.filter_congr fun token _ => ?_
  rw [Bool.eq_iff_iff, decide_eq_true_iff, Option.any_some, TextRange.meets_iff]
  simp [Token.range, TextRange.spanning]

theorem tile_ranges_viewAll (holder : Node) (index offset : Nat) (slots : List Green.Slot) :
    Tile offset (offset + Green.Slot.totalWidth slots)
      ((viewAll holder index offset slots).filterMap Slot.range?) := by
  induction slots generalizing index offset with
  | nil => rfl
  | cons slot rest inductionHypothesis =>
      have restTile := inductionHypothesis (index + 1) (offset + slot.width)
      rw [viewAll, Green.Slot.totalWidth, ← Nat.add_assoc]
      cases slot with
      | node green => exact TextRange.tile_spanning_cons.mpr restTile
      | token green => exact TextRange.tile_spanning_cons.mpr restTile
      | absent => exact restTile

theorem flatMap_filter {Item Result : Type} {wanted : Item → Bool} {results : Item → List Result}
    {items : List Item} (others : ∀ item ∈ items, ¬ wanted item = true → results item = []) :
    (items.filter wanted).flatMap results = items.flatMap results := by
  induction items with
  | nil => rfl
  | cons item rest inductionHypothesis =>
      rw [List.forall_mem_cons] at others
      by_cases chosen : wanted item = true
      · rw [List.filter_cons_of_pos chosen, List.flatMap_cons, List.flatMap_cons,
          inductionHypothesis others.2]
      · rw [List.filter_cons_of_neg chosen, List.flatMap_cons, others.1 chosen,
          inductionHypothesis others.2, List.nil_append]

variable {root : Green.Node} {workspace : Workspace} {made : List Green.Slot} {node : Node}

namespace Node.InTree

theorem tile_slots (history : Green.History workspace made) (rootMade : .node root ∈ made)
    (inTree : InTree root node) :
    Tile node.offset (node.offset + node.width) (node.slots.filterMap Slot.range?) := by
  have width_eq : node.width = Green.Slot.totalWidth node.green.slots :=
    history.width_eq_totalWidth (inTree.green_mem history rootMade)
  rw [width_eq]
  exact tile_ranges_viewAll node 0 node.offset node.green.slots

/-- The tokens below a slot lie end to end in its range. -/
theorem tile_tokens_of_slot (history : Green.History workspace made)
    (rootMade : .node root ∈ made) (inTree : InTree root node) {slot : Slot} {range : TextRange}
    (present : slot ∈ node.slots) (ranged : slot.range? = some range) :
    Tile range.start range.stop (slot.tokens.filterMap fun token => some token.range) := by
  obtain ⟨index, shown⟩ := mem_slots_iff.mp present
  cases slot with
  | node child =>
      cases ranged
      rw [List.filterMap_eq_map']
      exact (inTree.child shown).tile_tokens history rootMade
  | token token =>
      cases ranged
      exact TextRange.tile_spanning_cons.mpr rfl
  | absent => cases ranged

/-- The tokens at an offset are below the slots that touch it. -/
theorem tokensAt_eq_flatMap (history : Green.History workspace made)
    (rootMade : .node root ∈ made) (inTree : InTree root node) (offset : Nat) :
    node.tokensAt offset =
      (itemsAt Slot.range? offset node.slots).flatMap (Slot.tokensAt offset) := by
  rw [tokensAt_eq, tokens_eq, itemsAt, List.filter_flatMap]
  refine (flatMap_filter fun slot present outside => ?_).symm
  cases ranged : slot.range? with
  | none =>
      cases slot with
      | absent => rfl
      | node node => cases ranged
      | token token => cases ranged
  | some range =>
      rw [ranged, Option.any_some, TextRange.meets_iff] at outside
      rcases (inTree.tile_tokens_of_slot history rootMade present ranged).itemsAt_cases offset with
        ⟨none, _⟩ | ⟨_, _, inside⟩ | ⟨_, _, _, _, _, _, _, _, _, afterStart, beforeStop⟩
      · exact none
      · omega
      · omega

/-- A slot that ends or starts at an offset which its range meets has one token there. -/
theorem tokensAt_of_edge (history : Green.History workspace made)
    (rootMade : .node root ∈ made) (inTree : InTree root node) {slot : Slot} {range : TextRange}
    {offset : Nat} (present : slot ∈ node.slots) (ranged : slot.range? = some range)
    (met : range.meets offset = true) (edge : range.start = offset ∨ range.stop = offset) :
    ∃ token, slot.tokensAt offset = [token] := by
  rw [TextRange.meets_iff] at met
  rcases (inTree.tile_tokens_of_slot history rootMade present ranged).itemsAt_cases offset with
    ⟨_, outside⟩ | ⟨token, one, _⟩ | ⟨_, _, _, _, _, _, _, _, _, afterStart, beforeStop⟩
  · omega
  · exact ⟨token, one⟩
  · omega

/-- The answers of the slots that touch an offset: none, that of one slot, or two single tokens. -/
theorem answersAt_cases (history : Green.History workspace made) (rootMade : .node root ∈ made)
    (inTree : InTree root node) {offset : Nat}
    (below : ∀ slot ∈ itemsAt Slot.range? offset node.slots,
      slot.tokenAt offset = .ofTokens (slot.tokensAt offset)) :
    (node.answersAt offset = [] ∧ node.tokensAt offset = []) ∨
    (node.answersAt offset = [.ofTokens (node.tokensAt offset)]) ∨
    ∃ left right, node.answersAt offset = [.single left, .single right] ∧
      node.tokensAt offset = [left, right] := by
  rw [inTree.tokensAt_eq_flatMap history rootMade, answersAt]
  rcases (inTree.tile_slots history rootMade).itemsAt_cases offset with ⟨none, _⟩ | ⟨only, one, _⟩ |
    ⟨left, right, leftRange, rightRange, two, leftRanged, rightRanged, leftStop, rightStart, _⟩
  · rw [none]
    exact .inl ⟨rfl, rfl⟩
  · rw [one] at below ⊢
    rw [List.flatMap_singleton, List.map_singleton, below only List.mem_cons_self]
    exact .inr (.inl rfl)
  · have touching : ∀ slot ∈ [left, right], slot ∈ node.slots ∧
        slot.range?.any (TextRange.meets offset) = true := by
      rw [← two]
      exact fun slot present => List.mem_filter.mp present
    rw [two] at below ⊢
    simp only [List.forall_mem_cons] at touching below
    obtain ⟨⟨leftPresent, leftMet⟩, ⟨rightPresent, rightMet⟩, _⟩ := touching
    rw [leftRanged, Option.any_some] at leftMet
    rw [rightRanged, Option.any_some] at rightMet
    obtain ⟨first, leftOne⟩ :=
      inTree.tokensAt_of_edge history rootMade leftPresent leftRanged leftMet (.inr leftStop)
    obtain ⟨second, rightOne⟩ :=
      inTree.tokensAt_of_edge history rootMade rightPresent rightRanged rightMet (.inl rightStart)
    refine .inr (.inr ⟨first, second, ?_, ?_⟩)
    · rw [List.map_cons, List.map_singleton, below.1, below.2.1, leftOne, rightOne]
      rfl
    · rw [List.flatMap_cons, List.flatMap_singleton, leftOne, rightOne]
      rfl

/-- At most two tokens of a walk touch an offset, and there are some exactly when the node does. -/
theorem tokensAt_cases (history : Green.History workspace made) (rootMade : .node root ∈ made)
    (inTree : InTree root node) (offset : Nat) :
    (node.tokensAt offset = [] ∧ node.range.meets offset = false) ∨
    (∃ only, node.tokensAt offset = [only] ∧ node.range.meets offset = true) ∨
    ∃ left right, node.tokensAt offset = [left, right] ∧ node.range.meets offset = true ∧
      left.range.stop = offset ∧ right.range.start = offset := by
  have tile := inTree.tile_tokens history rootMade
  rw [← List.filterMap_eq_map'] at tile
  rw [tokensAt_eq, ← Bool.not_eq_true, TextRange.meets_iff, Node.range, TextRange.spanning]
  rcases tile.itemsAt_cases offset with ⟨none, outside⟩ | ⟨only, one, inside⟩ |
    ⟨left, right, _, _, two, leftRanged, rightRanged, leftStop, rightStart, inside⟩
  · exact .inl ⟨none, by dsimp only; omega⟩
  · exact .inr (.inl ⟨only, one, by dsimp only; omega⟩)
  · cases leftRanged
    cases rightRanged
    exact .inr (.inr ⟨left, right, two, by dsimp only; omega, leftStop, rightStart⟩)

theorem slot_tokenAt_eq (inTree : InTree root node) {offset : Nat}
    (below : ∀ {child : Node}, .node child ∈ node.slots → InTree root child →
      child.tokenAt offset = .ofTokens (child.tokensAt offset)) :
    ∀ slot ∈ itemsAt Slot.range? offset node.slots,
      slot.tokenAt offset = .ofTokens (slot.tokensAt offset) := by
  intro slot touching
  obtain ⟨present, met⟩ := List.mem_filter.mp touching
  cases slot with
  | node child =>
      obtain ⟨index, shown⟩ := mem_slots_iff.mp present
      rw [Slot.tokenAt, below present (inTree.child shown), tokensAt_eq]
      rfl
  | token token =>
      have met : token.range.meets offset = true := met
      have itself : Slot.tokensAt offset (.token token) = [token] := by
        simp [Slot.tokensAt, itemsAt, Slot.tokens, met]
      rw [itself]
      rfl
  | absent => cases met

/-- The answer about an offset is read off the tokens of the walk. -/
theorem tokenAt_eq_ofTokens (history : Green.History workspace made) (rootMade : .node root ∈ made)
    (inTree : InTree root node) (offset : Nat) :
    node.tokenAt offset = .ofTokens (node.tokensAt offset) := by
  induction node using below_induction with
  | step node inductionHypothesis =>
      rw [tokenAt_eq]
      by_cases met : node.range.meets offset = true
      · rw [if_pos met]
        rcases inTree.answersAt_cases history rootMade (inTree.slot_tokenAt_eq inductionHypothesis)
          with ⟨answers, tokens⟩ | answers | ⟨left, right, answers, tokens⟩
        · rw [answers, tokens]
          rfl
        · rw [answers]
          rfl
        · rw [answers, tokens]
          rfl
      · rw [if_neg met]
        rw [Bool.not_eq_true] at met
        rcases inTree.tokensAt_cases history rootMade offset with ⟨none, _⟩ | ⟨_, _, touching⟩ |
          ⟨_, _, _, touching, _⟩
        · rw [none]
          rfl
        · rw [met] at touching
          cases touching
        · rw [met] at touching
          cases touching

end Node.InTree

/-- The answer about an offset is no token, the one token, or the two tokens of the walk that have a
width and touch it; of two the first ends and the second starts there. A node that touches the offset
joins the answers of its slots that do, and no answer of a slot is dropped in that. -/
theorem tokenAt_is_exact (history : Green.History workspace made) (rootMade : .node root ∈ made)
    (inTree : Node.InTree root node) (offset : Nat) :
    ((node.tokensAt offset = [] ∧ node.tokenAt offset = .none) ∨
      (∃ only, node.tokensAt offset = [only] ∧ node.tokenAt offset = .single only) ∨
      ∃ left right, node.tokensAt offset = [left, right] ∧
        node.tokenAt offset = .between left right ∧
        left.range.stop = offset ∧ right.range.start = offset) ∧
    (node.tokenAt offset =
      if node.range.meets offset then .join (node.answersAt offset) else .none) ∧
    (node.answersAt offset = [] ∨ (∃ answer, node.answersAt offset = [answer]) ∨
      ∃ left right, node.answersAt offset = [.single left, .single right]) := by
  refine ⟨?_, node.tokenAt_eq offset, ?_⟩
  · have answer := inTree.tokenAt_eq_ofTokens history rootMade offset
    rcases inTree.tokensAt_cases history rootMade offset with ⟨none, _⟩ | ⟨only, one, _⟩ |
      ⟨left, right, two, _, leftStop, rightStart⟩
    · rw [none] at answer
      exact .inl ⟨none, answer⟩
    · rw [one] at answer
      exact .inr (.inl ⟨only, one, answer⟩)
    · rw [two] at answer
      exact .inr (.inr ⟨left, right, two, answer, leftStop, rightStart⟩)
  · have below := inTree.slot_tokenAt_eq fun {child} _ (childInTree : Node.InTree root child) =>
      childInTree.tokenAt_eq_ofTokens history rootMade offset
    rcases inTree.answersAt_cases history rootMade below with ⟨none, _⟩ | one | ⟨left, right, two, _⟩
    · exact .inl none
    · exact .inr (.inl ⟨_, one⟩)
    · exact .inr (.inr ⟨left, right, two⟩)

open Green.Sample (call functionToken openParen argumentToken history call_mem) in
theorem tokenAt_is_exact_of_call :
    (∃ left right, (Node.root call).tokenAt 2 = .between left right ∧
      left.green = openParen ∧ right.green = argumentToken) ∧
    ∃ only, (Node.root call).tokenAt 0 = .single only ∧ only.green = functionToken := by
  -- The parenthesis is a slot of the call, and the argument is three levels further down.
  have two : (Node.root call).tokensAt 2 =
      [.held openParen 1 1 (.root call), Sample.argumentToken] := by rfl
  have one : (Node.root call).tokensAt 0 = [.held functionToken 0 0 Sample.functionName] := by rfl
  have atTwo := (tokenAt_is_exact history call_mem Node.InTree.root 2).1
  have atZero := (tokenAt_is_exact history call_mem Node.InTree.root 0).1
  rw [two] at atTwo
  rw [one] at atZero
  constructor
  · rcases atTwo with ⟨none, _⟩ | ⟨_, one, _⟩ | ⟨left, right, same, answer, _⟩
    · cases none
    · cases one
    · cases same
      exact ⟨_, _, answer, rfl, rfl⟩
  · rcases atZero with ⟨none, _⟩ | ⟨only, same, answer⟩ | ⟨_, _, two, _⟩
    · cases none
    · cases same
      exact ⟨_, answer, rfl⟩
    · cases two

end Red

end SyntaxTree
