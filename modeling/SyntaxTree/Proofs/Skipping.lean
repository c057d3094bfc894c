import SyntaxTree.Proofs.SamePlace

/-!
Walks that are told to skip. The agenda of a walk is the list of the events to come, and skipping
strikes out those up to and including the one that leaves the innermost open node. Main statement:
whatever the order in which events are asked for and skipped, a walk answers as its agenda does.
-/

namespace SyntaxTree.Red

inductive WalkCall
  | next
  | skip

inductive WalkAnswer
  | shown (event : WalkEvent)
  | ended
  | skipped
  | refused (cause : Misuse)

/-- The answers to a sequence of calls, and the state that is left. -/
def WalkCall.respond {State : Type} (answer : State → WalkCall → WalkAnswer × State) :
    State → List WalkCall → List WalkAnswer × State
  | state, [] => ([], state)
  | state, call :: rest =>
    let (given, later) := answer state call
    let (others, final) := respond answer later rest
    (given :: others, final)

/-- What a walk answers to a call, and the walk that is left. It stays as it is at its end and when
there is nothing to skip. -/
def Walk.answer (walk : Walk) : WalkCall → WalkAnswer × Walk
  | .next =>
    match walk.next? with
    | some (event, later) => (.shown event, later)
    | none => (.ended, walk)
  | .skip =>
    match walk.skip with
    | .ok later => (.skipped, later)
    | .error cause => (.refused cause, walk)

namespace WalkEvent

def isToken : WalkEvent → Bool
  | token _ => true
  | enter _ | leave _ => false

def leaves (node : Node) : WalkEvent → Bool
  | leave other => node.samePlace other
  | enter _ | token _ => false

/-- The nodes that are open after an event, innermost first. -/
def openedAfter : WalkEvent → List Node → List Node
  | enter node, opened => node :: opened
  | leave node, opened => opened.eraseP node.samePlace
  | token _, opened => opened

end WalkEvent

/-- The events to come, and the nodes that were entered and neither left nor skipped, innermost
first. -/
structure Agenda where
  ahead : List WalkEvent
  opened : List Node

namespace Agenda

/-- The events behind the one that leaves a node. -/
def behind (node : Node) (events : List WalkEvent) : List WalkEvent :=
  (events.dropWhile fun event => !event.leaves node).tail

def answer (agenda : Agenda) : WalkCall → WalkAnswer × Agenda
  | .next =>
    match agenda.ahead with
    | [] => (.ended, agenda)
    | event :: rest => (.shown event, ⟨rest, event.openedAfter agenda.opened⟩)
  | .skip =>
    match agenda.opened with
    | [] => (.refused .nothingToSkip, agenda)
    | node :: outer => (.skipped, ⟨behind node agenda.ahead, outer⟩)

theorem behind_append {node : Node} {front : List WalkEvent} (rest : List WalkEvent)
    (staying : ∀ event ∈ front, event.leaves node = false) :
    behind node (front ++ .leave node :: rest) = rest := by
  have passed : ∀ event ∈ front, (!event.leaves node) = true := by simpa using staying
  rw [behind, List.dropWhile_append_of_pos passed]
  simp [WalkEvent.leaves, node.samePlace_self]

end Agenda

/-- Two machines whose states answer alike, and go on doing so, answer alike to any calls. -/
theorem WalkCall.respond_of_step {First Second : Type}
    {firstAnswer : First → WalkCall → WalkAnswer × First}
    {secondAnswer : Second → WalkCall → WalkAnswer × Second} {related : First → Second → Prop}
    (step : ∀ {first second}, related first second → ∀ call,
      (firstAnswer first call).1 = (secondAnswer second call).1 ∧
        related (firstAnswer first call).2 (secondAnswer second call).2)
    {first : First} {second : Second} (start : related first second) (calls : List WalkCall) :
    (respond firstAnswer first calls).1 = (respond secondAnswer second calls).1 ∧
      related (respond firstAnswer first calls).2 (respond secondAnswer second calls).2 := by
  induction calls generalizing first second with
  | nil => exact ⟨rfl, start⟩
  | cons call rest inductionHypothesis =>
      obtain ⟨sameAnswer, later⟩ := step start call
      obtain ⟨sameAnswers, final⟩ := inductionHypothesis later
      exact ⟨congrArg₂ List.cons sameAnswer sameAnswers, final⟩

theorem WalkCall.respond_append {State : Type} {answer : State → WalkCall → WalkAnswer × State}
    (state : State) (calls more : List WalkCall) :
    (respond answer state (calls ++ more)).2 =
      (respond answer (respond answer state calls).2 more).2 := by
  induction calls generalizing state with
  | nil => rfl
  | cons call rest inductionHypothesis => simp only [List.cons_append, respond, inductionHypothesis]

section Events

variable {showsTokens : Bool}

/-- A node that is left during the events of another is that node or below it. -/
theorem Node.path_suffix_of_leave {node place : Node}
    (left : .leave place ∈ node.events showsTokens) : node.path <:+ place.path := by
  induction node using below_induction with
  | step node inductionHypothesis =>
      simp only [events_eq, List.cons_append, List.mem_cons, reduceCtorEq, List.mem_append,
        List.mem_flatMap, WalkEvent.leave.injEq, List.not_mem_nil, or_false, false_or] at left
      rcases left with ⟨slot, present, left⟩ | rfl
      · cases slot with
        | node child =>
            obtain ⟨index, shown⟩ := mem_slots_iff.mp present
            obtain ⟨green, _, rfl⟩ := slot?_eq_node_iff.mp shown
            exact (List.suffix_cons _ _).trans (inductionHypothesis present left)
        | token token => cases showsTokens <;> simp [Slot.events] at left
        | absent => cases left
      · exact List.suffix_refl _

/-- The slots of a node show no event that leaves it. -/
theorem Slot.not_leaves_of_mem_events {node : Node} {slot : Slot} {event : WalkEvent}
    (present : slot ∈ node.slots) (shown : event ∈ slot.events showsTokens) :
    event.leaves node = false := by
  cases event with
  | enter place => rfl
  | token token => rfl
  | leave place =>
      cases slot with
      | token token => cases showsTokens <;> simp [Slot.events] at shown
      | absent => cases shown
      | node child =>
          obtain ⟨index, found⟩ := Node.mem_slots_iff.mp present
          obtain ⟨green, _, rfl⟩ := Node.slot?_eq_node_iff.mp found
          have longer := (Node.path_suffix_of_leave shown).length_le
          simp only [WalkEvent.leaves, ← Bool.not_eq_true]
          intro same
          rw [← (Node.of_samePlace same).2.1, Node.path, List.length_cons] at longer
          exact absurd longer (Nat.not_succ_le_self _)

/-- Without tokens the events are the others, in the same order. -/
theorem Node.events_eq_filter (node : Node) :
    node.events false = (node.events true).filter fun event => !event.isToken := by
  induction node using below_induction with
  | step node inductionHypothesis =>
      have slots_eq : node.slots.flatMap (Slot.events false) =
          (node.slots.flatMap (Slot.events true)).filter fun event => !event.isToken := by
        rw [List.filter_flatMap]
        apply List.flatMap_congr
        intro slot present
        cases slot with
        | node child => exact inductionHypothesis present
        | token token => rfl
        | absent => rfl
      rw [events_eq, events_eq, slots_eq]
      simp [WalkEvent.isToken]

end Events

/-- Whether a walk has the events and the open nodes of an agenda. Nothing is open before the first
event. -/
structure Walk.Follows (walk : Walk) (agenda : Agenda) : Prop where
  valid : walk.Valid
  ahead_eq : agenda.ahead = walk.ahead
  opened_eq : agenda.opened = walk.opened.map Cursor.node
  opened_of_pending : walk.pending ≠ none → walk.opened = []

namespace Walk

variable {walk later : Walk} {agenda : Agenda} {event : WalkEvent}

theorem follows_start (showsTokens : Bool) (node : Node) :
    (start showsTokens node).Follows ⟨node.events showsTokens, []⟩ where
  valid := List.forall_mem_nil _
  ahead_eq := (List.append_nil _).symm
  opened_eq := rfl
  opened_of_pending _ := rfl

theorem opened_of_next? (shown : walk.next? = some (event, later)) :
    later.pending = none ∧
      later.opened.map Cursor.node = event.openedAfter (walk.opened.map Cursor.node) := by
  obtain ⟨showsTokens, pending, opened⟩ := walk
  cases pending with
  | some node =>
      cases shown
      exact ⟨rfl, rfl⟩
  | none =>
      cases opened with
      | nil => cases shown
      | cons cursor outer =>
          simp only [next?] at shown
          split at shown
          · next found =>
              cases shown
              have same := (Cursor.seekWithin_eq_some found).1
              exact ⟨rfl, by simp [WalkEvent.openedAfter, same, Cursor.ofNode]⟩
          · next found =>
              cases shown
              have same := (Cursor.seekWithin_eq_some found).1
              exact ⟨rfl, by simp [WalkEvent.openedAfter, same]⟩
          all_goals
            cases shown
            exact ⟨rfl, by simp [WalkEvent.openedAfter, Node.samePlace_self]⟩

/-- Skipping leaves the events behind the one that would leave the innermost open node. -/
theorem ahead_of_opened {showsTokens : Bool} (cursor : Cursor) (outer : List Cursor) :
    Agenda.behind cursor.node (ahead ⟨showsTokens, none, cursor :: outer⟩) =
      ahead ⟨showsTokens, none, outer⟩ := by
  have split_eq : ahead ⟨showsTokens, none, cursor :: outer⟩ =
      cursor.ahead.flatMap (Slot.events showsTokens) ++
        .leave cursor.node :: ahead ⟨showsTokens, none, outer⟩ := by
    simp [ahead, Cursor.events]
  rw [split_eq]
  apply Agenda.behind_append
  intro event present
  obtain ⟨slot, ahead, shown⟩ := List.mem_flatMap.mp present
  have inNode : slot ∈ cursor.node.slots := List.mem_of_mem_take (List.mem_of_mem_drop ahead)
  exact Slot.not_leaves_of_mem_events inNode shown

theorem Follows.next (follows : walk.Follows agenda) :
    (walk.answer .next).1 = (agenda.answer .next).1 ∧
      (walk.answer .next).2.Follows (agenda.answer .next).2 := by
  rcases next?_cases follows.valid with ⟨ended, nothing⟩ | ⟨event, later, shown, split, valid, _⟩
  · have empty : agenda.ahead = [] := follows.ahead_eq.trans nothing
    simp only [answer, Agenda.answer, ended, empty]
    exact ⟨trivial, follows⟩
  · have first : agenda.ahead = event :: later.ahead := follows.ahead_eq.trans split
    obtain ⟨entered, opened_eq⟩ := opened_of_next? shown
    simp only [answer, Agenda.answer, shown, first]
    refine ⟨trivial, valid, rfl, ?_, fun pending => absurd entered pending⟩
    rw [opened_eq, follows.opened_eq]

theorem Follows.skip (follows : walk.Follows agenda) :
    (walk.answer .skip).1 = (agenda.answer .skip).1 ∧
      (walk.answer .skip).2.Follows (agenda.answer .skip).2 := by
  obtain ⟨showsTokens, pending, opened⟩ := walk
  obtain ⟨valid, ahead_eq, opened_eq, opened_of_pending⟩ := follows
  cases opened with
  | nil =>
      simp only [answer, Agenda.answer, Walk.skip, opened_eq, List.map_nil]
      exact ⟨trivial, valid, ahead_eq, opened_eq, opened_of_pending⟩
  | cons cursor outer =>
      have entered : pending = none := by
        by_contra pendingStill
        cases opened_of_pending pendingStill
      subst entered
      simp only [answer, Agenda.answer, Walk.skip, opened_eq, List.map_cons]
      refine ⟨trivial, (List.forall_mem_cons.mp valid).2, ?_, rfl,
        fun pending => absurd rfl pending⟩
      exact (congrArg _ ahead_eq).trans (ahead_of_opened cursor outer)

theorem Follows.step (follows : walk.Follows agenda) (call : WalkCall) :
    (walk.answer call).1 = (agenda.answer call).1 ∧
      (walk.answer call).2.Follows (agenda.answer call).2 := by
  cases call with
  | next => exact follows.next
  | skip => exact follows.skip

theorem of_ended (ended : walk.next? = none) : walk.pending = none ∧ walk.opened = [] := by
  obtain ⟨showsTokens, pending, opened⟩ := walk
  cases pending with
  | some node => cases ended
  | none =>
      cases opened with
      | nil => exact ⟨rfl, rfl⟩
      | cons cursor outer =>
          simp only [next?] at ended
          split at ended <;> cases ended

/-- At its end a walk stays as it is, whatever it is called for. -/
theorem respond_of_ended (ended : walk.next? = none) (calls : List WalkCall) :
    (WalkCall.respond answer walk calls).2 = walk := by
  have stays : ∀ call, (walk.answer call).2 = walk := by
    intro call
    cases call with
    | next => simp [answer, ended]
    | skip => simp [answer, Walk.skip, of_ended ended]
  induction calls with
  | nil => rfl
  | cons call rest inductionHypothesis =>
      simp only [WalkCall.respond, stays, inductionHypothesis]

theorem pending_answer (walk : Walk) (call : WalkCall) :
    (walk.answer call).2.pending = none ↔
      walk.pending = none ∨ ∃ event, .shown event = (walk.answer call).1 := by
  cases call with
  | next =>
      cases shown : walk.next? with
      | none => simp [answer, shown]
      | some found => simp [answer, shown, (opened_of_next? shown).1]
  | skip =>
      obtain ⟨showsTokens, pending, opened⟩ := walk
      cases opened <;> simp [answer, Walk.skip]

/-- The first node is entered by the first call that shows an event. -/
theorem pending_respond (walk : Walk) (calls : List WalkCall) :
    (WalkCall.respond answer walk calls).2.pending = none ↔
      walk.pending = none ∨ ∃ event, .shown event ∈ (WalkCall.respond answer walk calls).1 := by
  induction calls generalizing walk with
  | nil => simp [WalkCall.respond]
  | cons call rest inductionHypothesis =>
      simp only [WalkCall.respond, inductionHypothesis, pending_answer, List.mem_cons, exists_or,
        or_assoc]

/-- There is nothing to skip before the first event and at the end, and only then. -/
theorem skip_refused_iff {showsTokens : Bool} {node : Node} {calls : List WalkCall} :
    (WalkCall.respond answer (start showsTokens node) calls).2.skip = .error .nothingToSkip ↔
      (∀ event, .shown event ∉ (WalkCall.respond answer (start showsTokens node) calls).1) ∨
        (WalkCall.respond answer (start showsTokens node) calls).2.next? = none := by
  have entered := pending_respond (start showsTokens node) calls
  have follows := (WalkCall.respond_of_step Follows.step (follows_start showsTokens node) calls).2
  generalize WalkCall.respond answer (start showsTokens node) calls = outcome at *
  obtain ⟨answers, showsTokens, pending, opened⟩ := outcome
  cases opened with
  | nil =>
      cases pending with
      | none => simp [Walk.skip, next?]
      | some first =>
          simp only [start, reduceCtorEq, false_or, false_iff, not_exists] at entered
          simpa [Walk.skip] using .inl entered
  | cons cursor outer =>
      have gone : pending = none := by
        by_contra pendingStill
        cases follows.opened_of_pending pendingStill
      subst gone
      have shown : ∃ event, .shown event ∈ answers := by simpa [start] using entered
      have goesOn : next? ⟨showsTokens, none, cursor :: outer⟩ ≠ none := fun ended => by
        cases (of_ended ended).2
      simp [Walk.skip, shown, goesOn]

end Walk

/-- A walk that is run to its end enters a node, shows its slots from left to right, nothing for an
absent one, and leaves the node; without tokens it shows the same other events. Whatever is asked for
in between, it answers as the agenda of these events does. There is nothing to skip before the first
event and at the end, and only then; and once at its end a walk stays there. -/
theorem walks_follow_their_agenda (node : Node) :
    (Walk.start true node).toList = node.events true ∧
    (∀ below : Node, below.events true = .enter below ::
      (below.slots.flatMap fun slot =>
        slot.elim (Node.events true) (fun token => [.token token]) []) ++ [.leave below]) ∧
    (Walk.start false node).toList =
      ((Walk.start true node).toList.filter fun event => !event.isToken) ∧
    ∀ (showsTokens : Bool) (calls : List WalkCall),
      (WalkCall.respond Walk.answer (Walk.start showsTokens node) calls).1 =
        (WalkCall.respond Agenda.answer ⟨(Walk.start showsTokens node).toList, []⟩ calls).1 ∧
      ((WalkCall.respond Walk.answer (Walk.start showsTokens node) calls).2.skip =
          .error .nothingToSkip ↔
        (∀ event, .shown event ∉
          (WalkCall.respond Walk.answer (Walk.start showsTokens node) calls).1) ∨
          (WalkCall.respond Walk.answer (Walk.start showsTokens node) calls).2.next? = none) ∧
      ((WalkCall.respond Walk.answer (Walk.start showsTokens node) calls).2.next? = none →
        ∀ more, (WalkCall.respond Walk.answer (Walk.start showsTokens node)
          (calls ++ more)).2.next? = none) := by
  refine ⟨Walk.toList_start true node, fun below => ?_, ?_, fun showsTokens calls => ⟨?_, ?_, ?_⟩⟩
  · rw [Node.events_eq]
    congr 2
    apply List.flatMap_congr
    intro slot _
    cases slot <;> rfl
  · rw [Walk.toList_start, Walk.toList_start, node.events_eq_filter]
  · rw [Walk.toList_start]
    exact (WalkCall.respond_of_step Walk.Follows.step (Walk.follows_start showsTokens node) calls).1
  · exact Walk.skip_refused_iff
  · intro ended more
    rw [WalkCall.respond_append, Walk.respond_of_ended ended]
    exact ended

open Green.Sample (call) in
open Sample (functionName arguments) in
theorem walks_follow_their_agenda_of_call :
    (WalkCall.respond Walk.answer (Walk.start false (.root call))
        [.skip, .next, .next, .skip, .next, .skip, .skip, .skip]).1 =
      [.refused .nothingToSkip, .shown (.enter (.root call)), .shown (.enter functionName),
        .skipped, .shown (.enter arguments), .skipped, .skipped, .refused .nothingToSkip] ∧
    (WalkCall.respond Walk.answer (Walk.start true (.root call))
      ([.next, .skip] ++ [.next, .skip])).2.next? = none := by
  obtain ⟨_, _, _, runs⟩ := walks_follow_their_agenda (.root call)
  constructor
  · rw [(runs false _).1]
    rfl
  · exact (runs true [.next, .skip]).2.2 rfl [.next, .skip]

end SyntaxTree.Red
