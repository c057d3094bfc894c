import SyntaxTree.Fit

/-!
Where green values come into being. Every node is checked against its layout first, so that a value
made here is well formed if the values it is made of are.
-/

namespace SyntaxTree

def Kind.requireToken : Kind → Build TokenKind
  | .token kind => pure kind
  | .node kind => Build.misuse (.notATokenKind kind)

namespace Green

namespace Token

def create (kind : Kind) (text : String) (remarks : List Remark) : Build Token := do
  let kind ← kind.requireToken
  let stamp ← Build.freshStamp
  return { stamp, kind, text, leading := .empty, trailing := .empty, remarks, missing := false }

/-- A token with trivia around it. Its full text is that of all pieces and of the token proper. -/
def createWithTrivia (kind : Kind) (leading : List (TriviaKind × String)) (text : String)
    (trailing : List (TriviaKind × String)) : Build Token := do
  let kind ← kind.requireToken
  let stamp ← Build.freshStamp
  let join (pieces : List (TriviaKind × String)) := String.join (pieces.map (·.2))
  return {
    stamp, kind
    text := join leading ++ text ++ join trailing
    leading := .ofTexts leading
    trailing := .ofTexts trailing
    remarks := []
    missing := false }

/-- An empty token in place of one that the source lacks, with the remark that says so. -/
def createMissing (kind : Kind) (remark : Remark) : Build Token := do
  let kind ← kind.requireToken
  let stamp ← Build.freshStamp
  return {
    stamp, kind, text := "", leading := .empty, trailing := .empty
    remarks := [remark], missing := true }

/-- Punctuation or a keyword, with its one possible text. -/
def createFixed (kind : Kind) : Build Token :=
  match kind.fixedText? with
  | some text => create kind text []
  | none => Build.misuse (.noFixedText kind)

end Token

namespace Node

/-- Builds a node, treating a misfit as the given kind of failure. -/
def createOr (fail : SlotError → Failure) (kind : Kind) (slots : List Green.Slot)
    (remarks : List Remark) : Build Node :=
  match kind.checkSlots slots with
  | .error reason => throw (fail reason)
  | .ok kind => do
    let stamp ← Build.freshStamp
    return assemble stamp kind slots remarks

/-- Builds a node from slots that the caller vouches for. -/
def create (kind : Kind) (slots : List Green.Slot) (remarks : List Remark) : Build Node :=
  createOr (fun reason => .misuse (.cannotCreate kind reason)) kind slots remarks

/-- Builds a node, handing a misfit back to the caller. -/
def tryCreate (kind : Kind) (slots : List Green.Slot) : Build Node :=
  createOr .rejected kind slots []

theorem createOr_of_ok {fail : SlotError → Failure} {kind : Kind} {nodeKind : NodeKind}
    {slots : List Green.Slot} {remarks : List Remark} (workspace : Workspace)
    (fits : kind.checkSlots slots = .ok nodeKind) :
    createOr fail kind slots remarks workspace =
      .ok (assemble ⟨workspace.nextSerial⟩ nodeKind slots remarks)
        { workspace with nextSerial := workspace.nextSerial + 1 } := by
  rw [createOr, fits]
  rfl

theorem createOr_of_error {fail : SlotError → Failure} {kind : Kind} {reason : SlotError}
    {slots : List Green.Slot} {remarks : List Remark} (workspace : Workspace)
    (misfit : kind.checkSlots slots = .error reason) :
    createOr fail kind slots remarks workspace = .error (fail reason) workspace := by
  rw [createOr, misfit]
  rfl

theorem createOr_of_fits {fail : SlotError → Failure} {kind : NodeKind} {slots : List Green.Slot}
    {remarks : List Remark} (workspace : Workspace) (fits : kind.checkSlots slots = .ok ()) :
    createOr fail kind slots remarks workspace =
      .ok (assemble ⟨workspace.nextSerial⟩ kind slots remarks)
        { workspace with nextSerial := workspace.nextSerial + 1 } :=
  createOr_of_ok workspace (Kind.checkSlots_eq_ok_iff.mpr ⟨rfl, fits⟩)

theorem createOr_of_misfit {fail : SlotError → Failure} {kind : NodeKind} {reason : SlotError}
    {slots : List Green.Slot} {remarks : List Remark} (workspace : Workspace)
    (misfit : kind.checkSlots slots = .error reason) :
    createOr fail kind slots remarks workspace = .error (fail reason) workspace := by
  refine createOr_of_error workspace ?_
  simp [Kind.checkSlots, misfit, bind, Except.bind]

def createList (elements : List Node) : Build Node :=
  create NodeKind.list (elements.map .node) []

end Node

end Green

end SyntaxTree
