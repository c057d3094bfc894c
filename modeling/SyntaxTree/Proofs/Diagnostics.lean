import SyntaxTree.Proofs.Navigation

/-!
Where diagnostics are found. What a subtree carries is told by its green values and its offset; the
flag that a node keeps says whether that is anything at all. Main statement: the diagnostics of a
node are those of all nodes and tokens in preorder, also when a walk that skips the nodes without
any collects them, and they lie inside the range of the node.
-/

namespace SyntaxTree

/-- Whether a range lies inside another one, with its ends in order. -/
structure TextRange.Inside (inner outer : TextRange) : Prop where
  start_le : outer.start ≤ inner.start
  inOrder : inner.start ≤ inner.stop
  stop_le : inner.stop ≤ outer.stop

theorem TextRange.Inside.trans {inner middle outer : TextRange} (first : inner.Inside middle)
    (second : middle.Inside outer) : inner.Inside outer :=
  ⟨Nat.le_trans second.start_le first.start_le, first.inOrder,
    Nat.le_trans first.stop_le second.stop_le⟩

@[simp]
theorem Remark.locate_range (remark : Remark) (range : TextRange) :
    (remark.locate range).range = range := rfl

namespace Green

/-- What a token carries, over its text without trivia. -/
def Token.diagnosticsFrom (token : Token) (start : Nat) : List Diagnostic :=
  token.remarks.map
    (·.locate ⟨start + token.leading.len, start + token.width - token.trailing.len⟩)

mutual

/-- What a node that starts at a given offset carries, and then what its slots do. -/
def Node.diagnosticsFrom : Node → Nat → List Diagnostic
  | ⟨_, _, width, _, remarks, slots⟩, start =>
    remarks.map (·.locate (.spanning start width)) ++ slotsDiagnosticsFrom slots start

def slotsDiagnosticsFrom : List (SyntaxTree.Slot Node Token) → Nat → List Diagnostic
  | [], _ => []
  | slot :: rest, start =>
    slotDiagnosticsFrom slot start ++ slotsDiagnosticsFrom rest (start + Slot.width slot)

def slotDiagnosticsFrom : SyntaxTree.Slot Node Token → Nat → List Diagnostic
  | .node node => node.diagnosticsFrom
  | .token token => token.diagnosticsFrom
  | .absent => fun _ => []

end

theorem Node.diagnosticsFrom_eq (node : Node) (start : Nat) :
    node.diagnosticsFrom start =
      node.remarks.map (·.locate (.spanning start node.width)) ++
        slotsDiagnosticsFrom node.slots start := by
  cases node
  rfl

theorem slotsDiagnosticsFrom_eq_nil_iff {slots : List Slot} {start : Nat}
    (each : ∀ slot ∈ slots, ∀ start,
      slotDiagnosticsFrom slot start = [] ↔ Slot.hasRemarks slot = false) :
    slotsDiagnosticsFrom slots start = [] ↔ slots.any Slot.hasRemarks = false := by
  induction slots generalizing start with
  | nil => simp [slotsDiagnosticsFrom]
  | cons slot rest inductionHypothesis =>
      rw [List.forall_mem_cons] at each
      rw [slotsDiagnosticsFrom, List.append_eq_nil_iff, each.1, inductionHypothesis each.2,
        List.any_cons, Bool.or_eq_false_iff]

theorem inside_of_mem_slotsDiagnosticsFrom {slots : List Slot} {start : Nat}
    (each : ∀ slot ∈ slots, ∀ start, ∀ diagnostic ∈ slotDiagnosticsFrom slot start,
      diagnostic.range.Inside (.spanning start slot.width)) :
    ∀ diagnostic ∈ slotsDiagnosticsFrom slots start,
      diagnostic.range.Inside (.spanning start (Slot.totalWidth slots)) := by
  induction slots generalizing start with
  | nil => exact List.forall_mem_nil _
  | cons slot rest inductionHypothesis =>
      rw [List.forall_mem_cons] at each
      intro diagnostic present
      rcases List.mem_append.mp present with first | later
      · refine (each.1 start diagnostic first).trans ⟨Nat.le_refl _, ?_, ?_⟩ <;>
          simp only [TextRange.spanning, Slot.totalWidth] <;> omega
      · refine (inductionHypothesis each.2 diagnostic later).trans ⟨?_, ?_, ?_⟩ <;>
          simp only [TextRange.spanning, Slot.totalWidth] <;> omega

namespace History

variable {workspace : Workspace} {made : List Slot}

/-- A clean value is one that carries nothing. -/
theorem diagnosticsFrom_eq_nil_iff (history : History workspace made) {value : Slot}
    (available : Available made value) (start : Nat) :
    slotDiagnosticsFrom value start = [] ↔ value.hasRemarks = false := by
  refine history.induction_on (motive := fun value => ∀ start,
    slotDiagnosticsFrom value start = [] ↔ Slot.hasRemarks value = false) ?_ ?_ ?_ available start
  · simp [slotDiagnosticsFrom, Slot.hasRemarks]
  · intro call token earlier later _ start
    simp [slotDiagnosticsFrom, Token.diagnosticsFrom, Slot.hasRemarks]
  · intro stamp kind slots remarks _ each start
    have clean : slotsDiagnosticsFrom slots start = [] ↔ _ := slotsDiagnosticsFrom_eq_nil_iff each
    rw [slotDiagnosticsFrom, Node.diagnosticsFrom_eq, List.append_eq_nil_iff]
    simp [Slot.hasRemarks, Node.assemble, clean]

theorem inside_of_mem_diagnosticsFrom (history : History workspace made) {value : Slot}
    (available : Available made value) (start : Nat) :
    ∀ diagnostic ∈ slotDiagnosticsFrom value start,
      diagnostic.range.Inside (.spanning start value.width) := by
  refine history.induction_on (motive := fun value => ∀ start,
    ∀ diagnostic ∈ slotDiagnosticsFrom value start,
      diagnostic.range.Inside (.spanning start value.width)) ?_ ?_ ?_ available start
  · exact fun _ => List.forall_mem_nil _
  · intro call token earlier later called start
    have trivia := TokenCall.trivia_le_width called
    rw [slotDiagnosticsFrom, Token.diagnosticsFrom, List.forall_mem_map]
    intro remark _
    constructor <;> simp only [Remark.locate_range, TextRange.spanning, Slot.width] <;> omega
  · intro stamp kind slots remarks _ each start
    rw [slotDiagnosticsFrom, Node.diagnosticsFrom_eq, List.forall_mem_append, List.forall_mem_map]
    refine ⟨fun remark _ => ?_, inside_of_mem_slotsDiagnosticsFrom each⟩
    constructor <;> simp [Remark.locate_range, TextRange.spanning, Slot.width]

end History

/-! The expression `(ab+99`, which lacks its end, and a name. They carry remarks at every depth. -/

namespace Unclosed

open Sample (token)

def remark (code : String) : Remark := ⟨.warning, code, ""⟩

def openParen : Token := { token 0 .openParen "(" with remarks := [remark "open"] }

def leftToken : Token := token 1 .identifier "ab"

def left : Node := .assemble ⟨2⟩ .simpleNameReference [.token leftToken] []

def plus : Token := token 3 .plus "+"

def rightToken : Token := token 4 .decimalIntegerLiteral "99"

def right : Node := .assemble ⟨5⟩ .basicLiteral [.token rightToken] [remark "right"]

def sum : Node :=
  .assemble ⟨6⟩ .binaryExpression [.node left, .token plus, .node right] [remark "sum"]

def closeParen : Token :=
  { token 7 .closeParen "" with remarks := [remark "close"], missing := true }

def braced : Node :=
  .assemble ⟨8⟩ .bracedExpression [.token openParen, .node sum, .token closeParen]
    [remark "braced"]

def nameToken : Token := { token 9 .identifier "x" with remarks := [remark "name"] }

def name : Node := .assemble ⟨10⟩ .simpleNameReference [.token nameToken] []

def made : List Slot :=
  [.node name, .token nameToken, .node braced, .token closeParen, .node sum, .node right,
    .token rightToken, .token plus, .node left, .token leftToken, .token openParen]

def workspace : Workspace := ⟨11, #[]⟩

theorem braced_mem : .node braced ∈ made := by simp [made]

theorem name_available : Available made (.node name) := .inr List.mem_cons_self

theorem history : History workspace made := by
  have first : (TokenCall.plain TokenKind.openParen "(" [remark "open"]).run .empty =
      .ok openParen ⟨1, #[]⟩ := rfl
  have second : (TokenCall.plain TokenKind.identifier "ab" []).run ⟨1, #[]⟩ =
      .ok leftToken ⟨2, #[]⟩ := rfl
  have third : (TokenCall.fixed TokenKind.plus).run ⟨3, #[]⟩ = .ok plus ⟨4, #[]⟩ := rfl
  have fourth : (TokenCall.plain TokenKind.decimalIntegerLiteral "99" []).run ⟨4, #[]⟩ =
      .ok rightToken ⟨5, #[]⟩ := rfl
  have fifth : (TokenCall.missing TokenKind.closeParen (remark "close")).run ⟨7, #[]⟩ =
      .ok closeParen ⟨8, #[]⟩ := rfl
  have sixth : (TokenCall.plain TokenKind.identifier "x" [remark "name"]).run ⟨9, #[]⟩ =
      .ok nameToken ⟨10, #[]⟩ := rfl
  have leftMade : History ⟨3, #[]⟩ (made.drop 8) :=
    ((History.start.token first).token second).node (by simp [Available])
      (Node.create_run rfl [] _)
  have rightMade : History ⟨6, #[]⟩ (made.drop 5) :=
    ((leftMade.token third).token fourth).node (by simp [Available])
      (Node.create_run rfl [remark "right"] _)
  have sumMade : History ⟨7, #[]⟩ (made.drop 4) :=
    rightMade.node (by simp [Available, made]) (Node.create_run rfl [remark "sum"] _)
  have bracedMade : History ⟨9, #[]⟩ (made.drop 2) :=
    (sumMade.token fifth).node (by simp [Available, made])
      (Node.create_run rfl [remark "braced"] _)
  exact (bracedMade.token sixth).node (by simp [Available]) (Node.create_run rfl [] _)

end Unclosed

end Green

namespace Red

def Token.diagnostics (token : Token) : List Diagnostic :=
  token.green.remarks.map (·.locate token.trimmedRange)

/-- The diagnostics that a node carries itself. -/
def Node.ownDiagnostics (node : Node) : List Diagnostic :=
  node.green.remarks.map (·.locate node.range)

/-- What is added where a walk shows an event. -/
def WalkEvent.diagnostics : WalkEvent → List Diagnostic
  | .enter node => node.ownDiagnostics
  | .token value => value.diagnostics
  | .leave _ => []

def Slot.diagnostics : Slot → List Diagnostic
  | .node node => node.diagnostics
  | .token token => token.diagnostics
  | .absent => []

namespace Walk

/-- The diagnostics a walk comes by within some steps, when it skips the nodes that carry none. -/
def diagnosticsWithin : Nat → Walk → Except Misuse (List Diagnostic)
  | 0, _ => .ok []
  | steps + 1, walk =>
    match walk.next? with
    | none => .ok []
    | some (.enter node, rest) =>
      if node.green.hasRemarks then do
        return node.ownDiagnostics ++ (← diagnosticsWithin steps rest)
      else do
        diagnosticsWithin steps (← rest.skip)
    | some (.token found, rest) => do
      return found.diagnostics ++ (← diagnosticsWithin steps rest)
    | some (.leave _, rest) => diagnosticsWithin steps rest

def diagnostics (walk : Walk) : Except Misuse (List Diagnostic) :=
  diagnosticsWithin walk.bound walk

end Walk

/-- Slots seen one by one give what their green values carry, if nodes do. -/
theorem diagnostics_viewAll {holder : Node} {index offset : Nat} {slots : List Green.Slot}
    {each : Slot → List Diagnostic} (absent : each .absent = [])
    (token : ∀ token : Token, each (.token token) = token.green.diagnosticsFrom token.offset)
    (below : ∀ {node}, .node node ∈ viewAll holder index offset slots →
      each (.node node) = node.green.diagnosticsFrom node.offset) :
    (viewAll holder index offset slots).flatMap each =
      Green.slotsDiagnosticsFrom slots offset := by
  induction slots generalizing index offset with
  | nil => rfl
  | cons slot rest inductionHypothesis =>
      have restEqual := inductionHypothesis fun present => below (List.mem_cons_of_mem _ present)
      have slotEqual : each (view holder index offset slot) =
          Green.slotDiagnosticsFrom slot offset := by
        cases slot with
        | node green => exact below List.mem_cons_self
        | token green => exact token _
        | absent => exact absent
      rw [viewAll, List.flatMap_cons, slotEqual, restEqual, Green.slotsDiagnosticsFrom]

namespace Node

/-- The events of a node give what its green value carries at its offset. -/
theorem diagnostics_events (node : Node) :
    (node.events true).flatMap WalkEvent.diagnostics =
      node.green.diagnosticsFrom node.offset := by
  induction node using below_induction with
  | step node inductionHypothesis =>
      have slotsEqual : node.slots.flatMap
          (fun slot => (slot.events true).flatMap WalkEvent.diagnostics) =
            Green.slotsDiagnosticsFrom node.green.slots node.offset := by
        refine diagnostics_viewAll rfl (fun token => ?_) inductionHypothesis
        exact List.append_nil token.diagnostics
      rw [events_eq, Green.Node.diagnosticsFrom_eq, List.flatMap_append, List.flatMap_cons,
        List.flatMap_assoc, slotsEqual, List.flatMap_singleton]
      exact List.append_nil (node.ownDiagnostics ++ _)

/-- Puts the diagnostics of a node in front of others. -/
def prependDiagnostics : Node → List Diagnostic → List Diagnostic :=
  fold
    (fun self found rest =>
      if self.green.hasRemarks then self.ownDiagnostics ++ prepend (found ()) rest else rest)
    (fun token rest => token.diagnostics ++ rest)

theorem prependDiagnostics_eq (node : Node) (rest : List Diagnostic) :
    node.prependDiagnostics rest =
      if node.green.hasRemarks then
        node.ownDiagnostics ++ node.slots.foldr
          (fun slot behind => slot.elim (prependDiagnostics · behind) (·.diagnostics ++ behind)
            behind) rest
      else rest := by
  rw [prependDiagnostics, fold_eq, prepend, List.foldr_map]
  congr 3
  funext slot behind
  cases slot <;> rfl

end Node

/-- Slots put in front what their green values carry, if nodes do. -/
theorem prependDiagnostics_viewAll {holder : Node} {index offset : Nat} {slots : List Green.Slot}
    {rest : List Diagnostic}
    (below : ∀ {node}, .node node ∈ viewAll holder index offset slots → ∀ rest,
      node.prependDiagnostics rest = node.green.diagnosticsFrom node.offset ++ rest) :
    (viewAll holder index offset slots).foldr
      (fun slot behind => slot.elim (Node.prependDiagnostics · behind) (·.diagnostics ++ behind)
        behind) rest =
      Green.slotsDiagnosticsFrom slots offset ++ rest := by
  induction slots generalizing index offset with
  | nil => rfl
  | cons slot slots inductionHypothesis =>
      have restEqual := inductionHypothesis fun present => below (List.mem_cons_of_mem _ present)
      rw [viewAll, List.foldr_cons, restEqual, Green.slotsDiagnosticsFrom, List.append_assoc]
      cases slot with
      | node green => exact below List.mem_cons_self _
      | token green => rfl
      | absent => rfl

namespace Node

variable {root : Green.Node} {workspace : Workspace} {made : List Green.Slot}

theorem InTree.prependDiagnostics_eq {node : Node} (history : Green.History workspace made)
    (rootMade : .node root ∈ made) (inTree : InTree root node) (rest : List Diagnostic) :
    node.prependDiagnostics rest = node.green.diagnosticsFrom node.offset ++ rest := by
  induction node using below_induction generalizing rest with
  | step node inductionHypothesis =>
      have clean := history.diagnosticsFrom_eq_nil_iff
        (.inr (inTree.green_mem history rootMade)) node.offset
      rw [Node.prependDiagnostics_eq]
      split
      · rw [Green.Node.diagnosticsFrom_eq, List.append_assoc, slots, prependDiagnostics_viewAll]
        · rfl
        · intro below present
          obtain ⟨index, shown⟩ := mem_slots_iff.mp present
          exact inductionHypothesis present (inTree.child shown)
      · next flag =>
        rw [Bool.not_eq_true] at flag
        exact (congrArg (· ++ rest) (clean.mpr flag)).symm

/-- The fold that passes over clean nodes gives what the green value of a node carries at its
offset. -/
theorem InTree.diagnostics_eq {node : Node} (history : Green.History workspace made)
    (rootMade : .node root ∈ made) (inTree : InTree root node) :
    node.diagnostics = node.green.diagnosticsFrom node.offset :=
  (inTree.prependDiagnostics_eq history rootMade []).trans (List.append_nil _)

theorem InTree.diagnostics_eq_append {node : Node} (history : Green.History workspace made)
    (rootMade : .node root ∈ made) (inTree : InTree root node) :
    node.diagnostics = node.ownDiagnostics ++ node.slots.flatMap Slot.diagnostics := by
  have slotsEqual : node.slots.flatMap Slot.diagnostics =
      Green.slotsDiagnosticsFrom node.green.slots node.offset := by
    refine diagnostics_viewAll rfl (fun _ => rfl) ?_
    intro below present
    obtain ⟨index, shown⟩ := mem_slots_iff.mp present
    exact (inTree.child shown).diagnostics_eq history rootMade
  rw [inTree.diagnostics_eq history rootMade, Green.Node.diagnosticsFrom_eq, slotsEqual]
  rfl

end Node

namespace Walk

variable {root : Green.Node} {workspace : Workspace} {made : List Green.Slot} {walk later : Walk}
  {node : Node}

theorem opened_of_enter (shown : walk.next? = some (.enter node, later)) :
    ∃ outer, later = ⟨walk.showsTokens, none, .ofNode node :: outer⟩ := by
  obtain ⟨showsTokens, pending, opened⟩ := walk
  cases pending with
  | some first =>
      cases shown
      exact ⟨opened, rfl⟩
  | none =>
      cases opened with
      | nil => cases shown
      | cons cursor outer =>
          simp only [next?] at shown
          split at shown <;> cases shown
          exact ⟨_, rfl⟩

/-- After a node was entered, the events that it still has to show are those that a skip leaves
out. -/
theorem skip_entered (valid : walk.Valid) (shown : walk.next? = some (.enter node, later)) :
    ∃ skipped, later.skip = .ok skipped ∧ skipped.Valid ∧
      skipped.showsTokens = walk.showsTokens ∧
      walk.ahead = node.events walk.showsTokens ++ skipped.ahead := by
  obtain ⟨outer, rfl⟩ := opened_of_enter shown
  rcases next?_cases valid with ⟨ended, _⟩ | ⟨event, _, again, ahead_eq, laterValid, _⟩
  · rw [ended] at shown
    cases shown
  · rw [shown] at again
    cases again
    refine ⟨_, rfl, (List.forall_mem_cons.mp laterValid).2, rfl, ?_⟩
    rw [ahead_eq, ← Cursor.events_ofNode]
    rfl

/-- A walk that skips clean nodes comes by all diagnostics still to come. -/
theorem diagnosticsWithin_eq (history : Green.History workspace made)
    (rootMade : .node root ∈ made) (valid : walk.Valid) (within : walk.Within root)
    (withTokens : walk.showsTokens = true) {steps : Nat} (enough : walk.ahead.length ≤ steps) :
    diagnosticsWithin steps walk = .ok (walk.ahead.flatMap WalkEvent.diagnostics) := by
  induction steps generalizing walk with
  | zero =>
      rw [List.length_eq_zero_iff.mp (Nat.le_zero.mp enough)]
      rfl
  | succ steps inductionHypothesis =>
      rcases next?_cases valid with
        ⟨ended, ahead_eq⟩ | ⟨event, later, shown, ahead_eq, laterValid, sameTokens⟩
      · rw [diagnosticsWithin, ended, ahead_eq]
        rfl
      · obtain ⟨eventIn, laterWithin⟩ := within.next? shown
        have laterEnough : later.ahead.length ≤ steps := by
          rw [ahead_eq, List.length_cons] at enough
          exact Nat.le_of_succ_le_succ enough
        have goneOn := inductionHypothesis laterValid laterWithin (sameTokens.trans withTokens)
          laterEnough
        rw [diagnosticsWithin, shown]
        cases event with
        | enter node =>
            by_cases flag : node.green.hasRemarks
            · simp only [if_pos flag, goneOn, ahead_eq]
              rfl
            · obtain ⟨skipped, skip, skippedValid, skippedTokens, split⟩ :=
                skip_entered valid shown
              have nothing : (node.events true).flatMap WalkEvent.diagnostics = [] := by
                rw [node.diagnostics_events]
                exact (history.diagnosticsFrom_eq_nil_iff
                  (.inr (Node.InTree.green_mem eventIn history rootMade)) node.offset).mpr
                  (Bool.not_eq_true _ ▸ flag)
              have skippedEnough : skipped.ahead.length ≤ steps := by
                rw [split, List.length_append, Node.events_eq, List.cons_append,
                  List.length_cons] at enough
                omega
              have skippedOn := inductionHypothesis skippedValid (laterWithin.skip skip)
                (skippedTokens.trans withTokens) skippedEnough
              simp only [if_neg flag, skip, split, withTokens, List.flatMap_append, nothing]
              exact skippedOn
        | token value =>
            simp only [goneOn, ahead_eq]
            rfl
        | leave node =>
            simp only [goneOn, ahead_eq]
            rfl

theorem diagnostics_start (history : Green.History workspace made) (rootMade : .node root ∈ made)
    (inTree : Node.InTree root node) :
    (start true node).diagnostics = .ok ((node.events true).flatMap WalkEvent.diagnostics) := by
  have valid : (start true node).Valid := List.forall_mem_nil _
  have ahead_eq : (start true node).ahead = node.events true := List.append_nil _
  have within : (start true node).Within root := by
    refine ⟨?_, List.forall_mem_nil _⟩
    rintro _ ⟨rfl⟩
    exact inTree
  have enough : (start true node).ahead.length ≤ (start true node).bound := by
    rw [ahead_eq]
    exact node.length_events_le true
  rw [diagnostics, diagnosticsWithin_eq history rootMade valid within rfl enough, ahead_eq]

end Walk

/-- The diagnostics of a node are those of all nodes and tokens that a walk shows, which are its own
ones and then those of its slots. A walk that skips clean nodes collects the same ones. There are
none just when the flag of the node says so, and they lie inside its range. -/
theorem diagnostics_are_complete {root : Green.Node} {workspace : Workspace}
    {made : List Green.Slot} {node : Node} (history : Green.History workspace made)
    (rootMade : .node root ∈ made) (inTree : Node.InTree root node) :
    node.diagnostics = (Walk.start true node).toList.flatMap WalkEvent.diagnostics ∧
      node.diagnostics = node.ownDiagnostics ++ node.slots.flatMap Slot.diagnostics ∧
      (Walk.start true node).diagnostics = .ok node.diagnostics ∧
      (node.diagnostics = [] ↔ node.green.hasRemarks = false) ∧
      ∀ diagnostic ∈ node.diagnostics, diagnostic.range.Inside node.range := by
  have available : Green.Available made (.node node.green) :=
    .inr (inTree.green_mem history rootMade)
  have events_eq := node.diagnostics_events
  have append_eq := inTree.diagnostics_eq_append history rootMade
  rw [← append_eq, Walk.toList_start, Walk.diagnostics_start history rootMade inTree, events_eq,
    inTree.diagnostics_eq history rootMade]
  exact ⟨rfl, rfl, rfl, history.diagnosticsFrom_eq_nil_iff available node.offset,
    history.inside_of_mem_diagnosticsFrom available node.offset⟩

namespace Sample

def sum : Node := .child Green.Unclosed.sum 1 1 (.root Green.Unclosed.braced)

theorem sum_inTree : Node.InTree Green.Unclosed.braced sum :=
  have shown : (Node.root Green.Unclosed.braced).slot? 1 = some (.node sum) := rfl
  Node.InTree.root.child shown

end Sample

open Green.Unclosed (history braced_mem remark) in
theorem diagnostics_are_complete_of_sum :
    Sample.sum.diagnostics =
        [(remark "sum").locate ⟨1, 6⟩, (remark "right").locate ⟨4, 6⟩] ∧
      (Walk.start true Sample.sum).diagnostics = .ok Sample.sum.diagnostics ∧
      ∀ diagnostic ∈ Sample.sum.diagnostics, diagnostic.range.Inside ⟨1, 6⟩ := by
  obtain ⟨complete, _, walked, _, inside⟩ :=
    diagnostics_are_complete history braced_mem Sample.sum_inTree
  exact ⟨complete.trans rfl, walked, inside⟩

end Red

end SyntaxTree
