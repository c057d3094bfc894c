import SyntaxTree.Red.Cursor

/-!
Preorder walks as a machine that yields one event at a time. Between two events the walk may be
told to skip, which closes the innermost open node without an event for it.
-/

namespace SyntaxTree.Red

inductive WalkEvent
  | enter (node : Node)
  | leave (node : Node)
  | token (token : Token)

def WalkEvent.describe : WalkEvent → String
  | enter node => "enter " ++ node.describe
  | leave node => "leave " ++ node.describe
  | token value => "token " ++ value.describe

/-- A walk in progress: the node to enter first, if that is still to do, and a cursor for every open
node, innermost first. -/
structure Walk where
  showsTokens : Bool
  pending : Option Node
  opened : List Cursor

namespace Walk

def start (showsTokens : Bool) (node : Node) : Walk := ⟨showsTokens, some node, []⟩

/-- Whether a slot gives rise to an event. -/
def shows (walk : Walk) : Slot → Bool
  | .node _ => true
  | .token _ => walk.showsTokens
  | .absent => false

def next? (walk : Walk) : Option (WalkEvent × Walk) :=
  match walk.pending, walk.opened with
  | some node, opened =>
    some (.enter node, { walk with pending := none, opened := .ofNode node :: opened })
  | none, [] => none
  | none, cursor :: outer =>
    match cursor.seek walk.shows with
    | some (.node child, rest) =>
      some (.enter child, { walk with opened := .ofNode child :: rest :: outer })
    | some (.token token, rest) => some (.token token, { walk with opened := rest :: outer })
    | some (.absent, _) | none => some (.leave cursor.node, { walk with opened := outer })

def skip (walk : Walk) : Except Misuse Walk :=
  match walk.opened with
  | [] => .error .nothingToSkip
  | _ :: outer => .ok { walk with opened := outer }

/-- At least as many events as can still come. -/
def bound (walk : Walk) : Nat :=
  walk.opened.foldr (fun cursor total => 2 * cursor.node.green.size + total)
    (walk.pending.elim 0 (2 * ·.green.size))

def runWithin (skipAfter : Nat → Bool) :
    Nat → Nat → Walk → List WalkEvent × Except Misuse Unit
  | 0, _, _ => ([], .ok ())
  | steps + 1, position, walk =>
    match walk.next? with
    | none => ([], .ok ())
    | some (event, rest) =>
      match if skipAfter position then rest.skip else .ok rest with
      | .error cause => ([event], .error cause)
      | .ok rest =>
        let (events, verdict) := runWithin skipAfter steps (position + 1) rest
        (event :: events, verdict)

/-- Runs to the end, skipping after the events at chosen positions. -/
def run (walk : Walk) (skipAfter : Nat → Bool) : List WalkEvent × Except Misuse Unit :=
  runWithin skipAfter walk.bound 0 walk

/-- All events still to come. -/
def toList (walk : Walk) : List WalkEvent := (walk.run fun _ => false).1

end Walk

end SyntaxTree.Red
