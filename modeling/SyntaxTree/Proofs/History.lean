import SyntaxTree.Proofs.Grammar

/-!
Histories: the values that have been made up to a moment, each by a call that makes tokens or
nodes. Main statements: every value made follows the grammar, its numbers are right, and values with
the same stamp are the same.
-/

namespace SyntaxTree.Green

inductive TokenCall
  | plain (kind : Kind) (text : String) (remarks : List Remark)
  | withTrivia (kind : Kind) (leading : List (TriviaKind × String)) (text : String)
      (trailing : List (TriviaKind × String))
  | missing (kind : Kind) (remark : Remark)
  | fixed (kind : Kind)

def TokenCall.run : TokenCall → Build Token
  | plain kind text remarks => Token.create kind text remarks
  | withTrivia kind leading text trailing => Token.createWithTrivia kind leading text trailing
  | missing kind remark => Token.createMissing kind remark
  | fixed kind => Token.createFixed kind

/-- Absence is always at hand; any other content must have been made. -/
def Available (made : List Slot) (slot : Slot) : Prop :=
  slot = .absent ∨ slot ∈ made

/-- The values made so far, latest first, and the workspace as it is now. -/
inductive History : Workspace → List Slot → Prop
  | start : History .empty []
  /-- Events and stamps of other things come in between. -/
  | pass {workspace later : Workspace} {made : List Slot} :
      History workspace made → workspace.nextSerial ≤ later.nextSerial → History later made
  | token {workspace later : Workspace} {made : List Slot} {call : TokenCall} {token : Token} :
      History workspace made → call.run workspace = .ok token later →
      History later (.token token :: made)
  | node {workspace later : Workspace} {made : List Slot} {kind : Kind} {slots : List Slot}
      {remarks : List Remark} {node : Node} :
      History workspace made → (∀ slot ∈ slots, Available made slot) →
      Node.create kind slots remarks workspace = .ok node later →
      History later (.node node :: made)

theorem Available.mono {made more : List Slot} {slot : Slot} (available : Available made slot)
    (included : made ⊆ more) : Available more slot :=
  available.imp_right fun present => included present

theorem Available.cons {made : List Slot} {slot : Slot} (value : Slot)
    (available : Available made slot) : Available (value :: made) slot :=
  available.mono (List.subset_cons_self value made)

namespace Token

theorem create_eq_ok {kind : Kind} {text : String} {remarks : List Remark}
    {workspace later : Workspace} {token : Token}
    (made : create kind text remarks workspace = .ok token later) :
    token.stamp = ⟨workspace.nextSerial⟩ ∧
      later = { workspace with nextSerial := workspace.nextSerial + 1 } := by
  cases kind with
  | token kind =>
      cases made
      exact ⟨rfl, rfl⟩
  | node kind => cases made

theorem createFixed_eq_ok {kind : Kind} {workspace later : Workspace} {token : Token}
    (made : createFixed kind workspace = .ok token later) :
    ∃ text, kind.fixedText? = some text ∧ create kind text [] workspace = .ok token later := by
  rw [createFixed] at made
  cases written : kind.fixedText? with
  | some text =>
      rw [written] at made
      exact ⟨text, rfl, made⟩
  | none =>
      rw [written] at made
      cases made

end Token

theorem TokenCall.run_eq_ok {call : TokenCall} {workspace later : Workspace} {token : Token}
    (made : call.run workspace = .ok token later) :
    token.stamp = ⟨workspace.nextSerial⟩ ∧
      later = { workspace with nextSerial := workspace.nextSerial + 1 } := by
  cases call with
  | plain kind text remarks => exact Token.create_eq_ok made
  | withTrivia kind leading text trailing =>
      cases kind with
      | token kind =>
          cases made
          exact ⟨rfl, rfl⟩
      | node kind => cases made
  | missing kind remark =>
      cases kind with
      | token kind =>
          cases made
          exact ⟨rfl, rfl⟩
      | node kind => cases made
  | fixed kind =>
      obtain ⟨_, _, created⟩ := Token.createFixed_eq_ok made
      exact Token.create_eq_ok created

/-- A node that is made has slots that fit its kind, is stamped with the next serial, and nothing
else is changed. -/
theorem Node.create_eq_ok_iff {kind : Kind} {slots : List Slot} {remarks : List Remark}
    {workspace later : Workspace} {node : Node} :
    Node.create kind slots remarks workspace = .ok node later ↔
      ∃ nodeKind : NodeKind, kind = nodeKind ∧ nodeKind.checkSlots slots = .ok () ∧
        node = .assemble ⟨workspace.nextSerial⟩ nodeKind slots remarks ∧
        later = { workspace with nextSerial := workspace.nextSerial + 1 } := by
  constructor
  · intro made
    cases fits : kind.checkSlots slots with
    | ok nodeKind =>
        rw [Node.create, Node.createOr_of_ok workspace fits] at made
        cases made
        obtain ⟨rfl, checked⟩ := Kind.checkSlots_eq_ok_iff.mp fits
        exact ⟨nodeKind, rfl, checked, rfl, rfl⟩
    | error reason =>
        rw [Node.create, Node.createOr_of_error workspace fits] at made
        cases made
  · rintro ⟨nodeKind, rfl, checked, rfl, rfl⟩
    exact Node.createOr_of_fits workspace checked

theorem Node.create_run {kind : NodeKind} {slots : List Slot}
    (fits : kind.checkSlots slots = .ok ()) (remarks : List Remark) (workspace : Workspace) :
    Node.create kind slots remarks workspace =
      .ok (.assemble ⟨workspace.nextSerial⟩ kind slots remarks)
        { workspace with nextSerial := workspace.nextSerial + 1 } :=
  Node.createOr_of_fits workspace fits

namespace History

variable {workspace : Workspace} {made : List Slot}

theorem stamp_lt (history : History workspace made) {value : Slot} (present : value ∈ made) :
    ∃ stamp, value.stamp? = some stamp ∧ stamp.serial < workspace.nextSerial := by
  induction history with
  | start => cases present
  | pass _ increased inductionHypothesis =>
      obtain ⟨stamp, stamped, below⟩ := inductionHypothesis present
      exact ⟨stamp, stamped, Nat.lt_of_lt_of_le below increased⟩
  | token _ call inductionHypothesis =>
      obtain ⟨stamped, rfl⟩ := TokenCall.run_eq_ok call
      rcases List.mem_cons.mp present with rfl | earlier
      · exact ⟨_, rfl, by simp [stamped]⟩
      · obtain ⟨stamp, stamped, below⟩ := inductionHypothesis earlier
        exact ⟨stamp, stamped, Nat.lt_succ_of_lt below⟩
  | node _ _ call inductionHypothesis =>
      obtain ⟨_, _, _, rfl, rfl⟩ := Node.create_eq_ok_iff.mp call
      rcases List.mem_cons.mp present with rfl | earlier
      · exact ⟨_, rfl, by simp [Node.assemble]⟩
      · obtain ⟨stamp, stamped, below⟩ := inductionHypothesis earlier
        exact ⟨stamp, stamped, Nat.lt_succ_of_lt below⟩

theorem stamp_ne_next (history : History workspace made) {value : Slot} (present : value ∈ made) :
    value.stamp? ≠ some ⟨workspace.nextSerial⟩ := by
  obtain ⟨stamp, stamped, below⟩ := history.stamp_lt present
  rw [stamped]
  rintro ⟨rfl⟩
  exact Nat.lt_irrefl _ below

theorem not_identical_of_le (history : History workspace made) {value : Slot}
    (present : value ∈ made) {node : Node} {serial : Nat} (stamped : node.stamp = ⟨serial⟩)
    (notYet : workspace.nextSerial ≤ serial) : Slot.identical value (.node node) = false := by
  obtain ⟨stamp, found, below⟩ := history.stamp_lt present
  cases value with
  | node earlier =>
      cases found
      simp only [Slot.identical, stamped, beq_eq_false_iff_ne]
      intro same
      rw [same] at below
      exact absurd below (Nat.not_lt.mpr notYet)
  | token token => rfl
  | absent => rfl

/-- Among the values of a history with one more, that one is known by its stamp. -/
theorem eq_of_stamp_cons (history : History workspace made) {added : Slot}
    (stamped : added.stamp? = some ⟨workspace.nextSerial⟩)
    (unique : ∀ first ∈ made, ∀ second ∈ made, first.stamp? = second.stamp? → first = second) :
    ∀ first ∈ added :: made, ∀ second ∈ added :: made,
      first.stamp? = second.stamp? → first = second := by
  intro first firstPresent second secondPresent same
  rcases List.mem_cons.mp firstPresent with rfl | firstEarlier
  · rcases List.mem_cons.mp secondPresent with rfl | secondEarlier
    · rfl
    · exact absurd (same.symm.trans stamped) (history.stamp_ne_next secondEarlier)
  · rcases List.mem_cons.mp secondPresent with rfl | secondEarlier
    · exact absurd (same.trans stamped) (history.stamp_ne_next firstEarlier)
    · exact unique first firstEarlier second secondEarlier same

/-- A stamp stands for one value. -/
theorem eq_of_stamp (history : History workspace made) :
    ∀ first ∈ made, ∀ second ∈ made, first.stamp? = second.stamp? → first = second := by
  induction history with
  | start => intro first present; cases present
  | pass _ _ inductionHypothesis => exact inductionHypothesis
  | token earlier call inductionHypothesis =>
      refine earlier.eq_of_stamp_cons ?_ inductionHypothesis
      exact congrArg some (TokenCall.run_eq_ok call).1
  | node earlier _ call inductionHypothesis =>
      obtain ⟨_, _, _, rfl, rfl⟩ := Node.create_eq_ok_iff.mp call
      exact earlier.eq_of_stamp_cons rfl inductionHypothesis

theorem eq_of_identical (history : History workspace made) {first second : Slot}
    (firstAvailable : Available made first) (secondAvailable : Available made second)
    (same : Slot.identical first second = true) : first = second := by
  rcases firstAvailable with rfl | firstPresent
  · cases second with
    | absent => rfl
    | node node => cases same
    | token token => cases same
  · rcases secondAvailable with rfl | secondPresent
    · cases first <;> cases same
      rfl
    · refine history.eq_of_stamp first firstPresent second secondPresent ?_
      cases first <;> cases second <;>
        simp_all [Slot.identical, Slot.stamp?, Token.identical]

theorem node_eq_of_identical (history : History workspace made) {first second : Node}
    (firstPresent : .node first ∈ made) (secondPresent : .node second ∈ made)
    (same : first.identical second = true) : first = second :=
  SyntaxTree.Slot.node.inj
    (history.eq_of_identical (.inr firstPresent) (.inr secondPresent) same)

theorem eq_of_allIdentical (history : History workspace made) {firsts seconds : List Slot}
    (firstsAvailable : ∀ slot ∈ firsts, Available made slot)
    (secondsAvailable : ∀ slot ∈ seconds, Available made slot)
    (same : Slot.allIdentical firsts seconds = true) : firsts = seconds := by
  induction firsts generalizing seconds with
  | nil =>
      cases seconds with
      | nil => rfl
      | cons second seconds => cases same
  | cons first firsts inductionHypothesis =>
      cases seconds with
      | nil => cases same
      | cons second seconds =>
          simp only [Slot.allIdentical, Bool.and_eq_true] at same
          simp only [List.forall_mem_cons] at firstsAvailable secondsAvailable
          rw [history.eq_of_identical firstsAvailable.1 secondsAvailable.1 same.1,
            inductionHypothesis firstsAvailable.2 secondsAvailable.2 same.2]

/-- What holds of absence and of every token made, and of a node whenever it holds of its slots,
holds of everything at hand. -/
theorem induction_on {motive : Slot → Prop} (history : History workspace made)
    (absent : motive .absent)
    (token : ∀ {call : TokenCall} {token : Token} {earlier later : Workspace},
      call.run earlier = .ok token later → motive (.token token))
    (node : ∀ (stamp : Stamp) {kind : NodeKind} {slots : List Slot} (remarks : List Remark),
      kind.checkSlots slots = .ok () → (∀ slot ∈ slots, motive slot) →
      motive (.node (.assemble stamp kind slots remarks)))
    {value : Slot} (available : Available made value) : motive value := by
  rcases available with rfl | present
  · exact absent
  · induction history generalizing value with
    | start => cases present
    | pass _ _ inductionHypothesis => exact inductionHypothesis present
    | token _ call inductionHypothesis =>
        rcases List.mem_cons.mp present with rfl | earlier
        · exact token call
        · exact inductionHypothesis earlier
    | node _ slotsAvailable call inductionHypothesis =>
        rcases List.mem_cons.mp present with rfl | earlier
        · obtain ⟨_, _, fits, rfl, rfl⟩ := Node.create_eq_ok_iff.mp call
          refine node _ _ fits ?_
          intro slot slotPresent
          rcases slotsAvailable slot slotPresent with rfl | slotMade
          · exact absent
          · exact inductionHypothesis slotMade
        · exact inductionHypothesis earlier

theorem slots_available (history : History workspace made) {node : Node}
    (present : .node node ∈ made) : ∀ slot ∈ node.slots, Available made slot := by
  induction history with
  | start => cases present
  | pass _ _ inductionHypothesis => exact inductionHypothesis present
  | token _ _ inductionHypothesis =>
      rcases List.mem_cons.mp present with same | earlier
      · cases same
      · intro slot slotPresent
        exact (inductionHypothesis earlier slot slotPresent).cons _
  | node _ slotsAvailable call inductionHypothesis =>
      obtain ⟨_, _, _, rfl, rfl⟩ := Node.create_eq_ok_iff.mp call
      rcases List.mem_cons.mp present with same | earlier
      · cases same
        intro slot slotPresent
        exact (slotsAvailable slot slotPresent).cons _
      · intro slot slotPresent
        exact (inductionHypothesis earlier slot slotPresent).cons _

theorem node_cases (history : History workspace made) {node : Node}
    (present : .node node ∈ made) :
    ∃ (stamp : Stamp) (kind : NodeKind) (slots : List Slot) (remarks : List Remark),
      kind.checkSlots slots = .ok () ∧ node = .assemble stamp kind slots remarks := by
  refine history.induction_on (motive := fun value => ∀ node, value = .node node →
    ∃ (stamp : Stamp) (kind : NodeKind) (slots : List Slot) (remarks : List Remark),
      kind.checkSlots slots = .ok () ∧ node = .assemble stamp kind slots remarks) ?_ ?_ ?_
    (.inr present) node rfl
  · intro node same
    cases same
  · intro call token earlier later called node same
    cases same
  · rintro stamp kind slots remarks fits - node ⟨rfl⟩
    exact ⟨stamp, kind, slots, remarks, fits, rfl⟩

theorem token_cases (history : History workspace made) {token : Token}
    (present : .token token ∈ made) :
    ∃ (call : TokenCall) (earlier later : Workspace), call.run earlier = .ok token later := by
  refine history.induction_on (motive := fun value => ∀ token, value = .token token →
    ∃ (call : TokenCall) (earlier later : Workspace), call.run earlier = .ok token later) ?_ ?_ ?_
    (.inr present) token rfl
  · intro token same
    cases same
  · rintro call token earlier later called _ ⟨rfl⟩
    exact ⟨call, earlier, later, called⟩
  · intro stamp kind slots remarks _ _ token same
    cases same

theorem checkSlots_eq_ok (history : History workspace made) {node : Node}
    (present : .node node ∈ made) : node.kind.checkSlots node.slots = .ok () := by
  obtain ⟨_, _, _, _, fits, rfl⟩ := history.node_cases present
  exact fits

/-- The width kept with a value is the size of its text. -/
theorem width_eq_size (history : History workspace made) {value : Slot}
    (available : Available made value) : value.width = (textOfSlot value).utf8ByteSize := by
  refine history.induction_on (motive := fun value =>
    value.width = (textOfSlot value).utf8ByteSize) ?_ ?_ ?_ available
  · rfl
  · intro call token earlier later call
    simp [Slot.width, Token.width]
  · intro stamp kind slots remarks fits widths
    rw [textOfSlot_node, Node.text_eq]
    exact totalWidth_eq_size widths

theorem width_eq_totalWidth (history : History workspace made) {node : Node}
    (present : .node node ∈ made) : node.width = Slot.totalWidth node.slots := by
  obtain ⟨_, _, _, _, _, rfl⟩ := history.node_cases present
  rfl

/-- Every node that was made follows the grammar at every depth. -/
theorem wellFormed (history : History workspace made) {node : Node}
    (present : .node node ∈ made) : node.WellFormed := by
  refine history.induction_on (motive := fun value =>
    ∀ node, value = .node node → node.WellFormed) ?_ ?_ ?_ (.inr present) node rfl
  · intro node same
    cases same
  · intro call token earlier later called node same
    cases same
  · rintro stamp kind slots remarks fits descendants node ⟨rfl⟩
    refine .intro ?_ ?_
    · simpa [Node.assemble] using (NodeKind.checkSlots_eq_ok_iff kind slots).mp fits
    · intro child childPresent
      rw [Node.description_slots, List.mem_map] at childPresent
      obtain ⟨slot, slotPresent, described⟩ := childPresent
      obtain ⟨childNode, rfl, rfl⟩ := Slot.description_eq_node_iff.mp described
      exact descendants _ slotPresent childNode rfl

end History

/-! A call `f(a)`, whose values were made one after the other. -/

namespace Sample

def token (serial : Nat) (kind : TokenKind) (text : String) : Token where
  stamp := ⟨serial⟩
  kind := kind
  text := text
  leading := .empty
  trailing := .empty
  remarks := []
  missing := false

def functionToken : Token := token 0 .identifier "f"

def openParen : Token := token 1 .openParen "("

def closeParen : Token := token 2 .closeParen ")"

def argumentToken : Token := token 3 .identifier "a"

def functionName : Node := .assemble ⟨4⟩ .simpleNameReference [.token functionToken] []

def variableName : Node := .assemble ⟨5⟩ .simpleNameReference [.token argumentToken] []

def argument : Node := .assemble ⟨6⟩ .positionalArgument [.absent, .node variableName] []

def arguments : Node := .assemble ⟨7⟩ .list [.node argument] []

def call : Node :=
  .assemble ⟨8⟩ .functionCallExpression
    [.node functionName, .token openParen, .node arguments, .token closeParen] []

def made : List Slot :=
  [.node call, .node arguments, .node argument, .node variableName, .node functionName,
    .token argumentToken, .token closeParen, .token openParen, .token functionToken]

def workspace : Workspace := ⟨9, #[]⟩

theorem call_mem : .node call ∈ made := List.mem_cons_self

theorem history : History workspace made := by
  have first : (TokenCall.plain TokenKind.identifier "f" []).run .empty =
      .ok functionToken ⟨1, #[]⟩ := rfl
  have second : (TokenCall.fixed TokenKind.openParen).run ⟨1, #[]⟩ = .ok openParen ⟨2, #[]⟩ := rfl
  have third : (TokenCall.fixed TokenKind.closeParen).run ⟨2, #[]⟩ = .ok closeParen ⟨3, #[]⟩ := rfl
  have fourth : (TokenCall.plain TokenKind.identifier "a" []).run ⟨3, #[]⟩ =
      .ok argumentToken ⟨4, #[]⟩ := rfl
  have tokens : History ⟨4, #[]⟩ (made.drop 5) :=
    (((History.start.token first).token second).token third).token fourth
  have functionNamed : History ⟨5, #[]⟩ (made.drop 4) :=
    tokens.node (by simp [Available, made]) (Node.create_run rfl [] _)
  have argumentNamed : History ⟨6, #[]⟩ (made.drop 3) :=
    functionNamed.node (by simp [Available, made]) (Node.create_run rfl [] _)
  have argumentMade : History ⟨7, #[]⟩ (made.drop 2) :=
    argumentNamed.node (by simp [Available, made]) (Node.create_run rfl [] _)
  have argumentsMade : History ⟨8, #[]⟩ (made.drop 1) :=
    argumentMade.node (by simp [Available, made]) (Node.create_run rfl [] _)
  exact argumentsMade.node (by simp [Available, made]) (Node.create_run rfl [] _)

end Sample

end SyntaxTree.Green
