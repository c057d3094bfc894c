import SyntaxTree.Edit.Transform
import SyntaxTree.Interner
import SyntaxTree.Typed.Untyped
import SyntaxTree.Proofs.History

/-!
Clients of the library. A client names green values by the order in which they came to its hands, so
it can use what the library gave it and make up no value of its own. Scripts are what a client may
do, with every decision left open: which call comes next may depend on everything seen so far, and a
transform may run any script for each node and token it visits.
-/

namespace SyntaxTree

/-- What a client has: a workspace, interners, the green values it was given, oldest first, and
whatever it wants to remember. -/
structure Session (Memory : Type) where
  workspace : Workspace
  interners : List Interner
  held : List Green.Slot
  memory : Memory

inductive Halt
  | failed (failure : Failure)
  /-- The client has no such value. -/
  | dangling (reference : Nat)
  | refused (reason : Typed.Refusal)

abbrev Client (Memory : Type) := EStateM Halt (Session Memory)

/-- A handle, named by the root of its tree and the way down from there. -/
structure Place where
  root : Nat
  path : List Nat

/-- An edit with references in place of values. Nothing stands for absence. -/
inductive EditCall
  | set (index : Nat) (content : Option Nat)
  | insert (index element : Nat)
  | push (element : Nat)
  | remove (index : Nat)

/-- The calls of the library that make or edit values, and those that look into a tree. -/
inductive Call
  | token (call : Green.TokenCall)
  | node (kind : Kind) (contents : List (Option Nat)) (remarks : List Remark)
  | tryNode (kind : Kind) (contents : List (Option Nat))
  | list (elements : List Nat)
  | typedNode (kind : NodeKind) (fields : List (Option Nat))
  | typedList (elements : List Nat)
  | newInterner (maxSlots : Nat)
  | internToken (interner : Nat) (kind : Kind) (text : String)
  | internNode (interner : Nat) (kind : Kind) (contents : List (Option Nat))
  | clearInterner (interner : Nat)
  | look (place : Place) (index : Nat)
  | edit (place : Place) (edits : List EditCall)
  | replaceSlot (place : Place) (index : Nat) (content : Option Nat)
  | replaceSlots (place : Place) (contents : List (Nat × Option Nat))
  | replaceNode (place : Place) (element : Nat)
  | replaceToken (place : Place) (index element : Nat)

namespace Client

variable {Memory : Type}

/-- Runs an action of the library on the workspace of a client. -/
def perform {Result : Type} (action : Build Result) : Client Memory Result := fun session =>
  match action session.workspace with
  | .ok result later => .ok result { session with workspace := later }
  | .error failure later => .error (.failed failure) { session with workspace := later }

instance : MonadLift Build (Client Memory) := ⟨perform⟩

/-- Runs an action and goes on if it fails, knowing why. -/
def attempt (action : Client Memory Unit) : Client Memory (Option Halt) := fun session =>
  match action session with
  | .ok _ later => .ok none later
  | .error halt later => .ok (some halt) later

def hold (slot : Green.Slot) : Client Memory Unit := fun session =>
  .ok () { session with held := session.held ++ [slot] }

def heldSlot (reference : Nat) : Client Memory Green.Slot := fun session =>
  match session.held[reference]? with
  | some slot => .ok slot session
  | none => .error (.dangling reference) session

def content : Option Nat → Client Memory Green.Slot
  | some reference => heldSlot reference
  | none => return .absent

def heldNode (reference : Nat) : Client Memory Green.Node := do
  match ← heldSlot reference with
  | .node node => return node
  | .token _ | .absent => throw (.dangling reference)

def heldToken (reference : Nat) : Client Memory Green.Token := do
  match ← heldSlot reference with
  | .token token => return token
  | .node _ | .absent => throw (.dangling reference)

def heldInterner (number : Nat) : Client Memory Interner := fun session =>
  match session.interners[number]? with
  | some interner => .ok interner session
  | none => .error (.dangling number) session

def putInterner (number : Nat) (interner : Interner) : Client Memory Unit := fun session =>
  .ok () { session with interners := session.interners.set number interner }

def locate (place : Place) : Client Memory Red.Node := do
  let root ← heldNode place.root
  perform (Build.ofMisuse ((Red.Node.root root).descend place.path))

def holdTree (node : Red.Node) : Client Memory Unit := hold (.node node.treeRoot.green)

def supply (values : List (Option Green.Slot)) {owner : NodeKind} (type : Typed.FieldType)
    (field : Typed.Field owner type) : Client Memory type.Value :=
  match type.ofGreen (values[field.index]?).join with
  | .ok value => return value
  | .error reason => throw (.refused reason)

end Client

def EditCall.resolve {Memory : Type} : EditCall → Client Memory Edit
  | set index content => return .set index (← Client.content content)
  | insert index element => return .insert index (← Client.heldNode element)
  | push element => return .push (← Client.heldNode element)
  | remove index => return .remove index

open Client in
def Call.run {Memory : Type} : Call → Client Memory Unit
  | token made => do hold (.token (← perform made.run))
  | node kind contents remarks => do
    let slots ← contents.mapM content
    hold (.node (← perform (Green.Node.create kind slots remarks)))
  | tryNode kind contents => do
    let slots ← contents.mapM content
    hold (.node (← perform (Green.Node.tryCreate kind slots)))
  | list elements => do
    let nodes ← elements.mapM heldNode
    hold (.node (← perform (Green.Node.createList nodes)))
  | typedNode kind fields => do
    let values ← fields.mapM fun field => field.mapM heldSlot
    holdTree (← Typed.createWith kind (supply values))
  | typedList elements => do
    let nodes ← elements.mapM heldNode
    let views := nodes.map fun node => Typed.AnyNode.ofNode (.root node)
    holdTree (← perform (Typed.NodeList.create views)).node
  | newInterner maxSlots => modify fun session =>
    { session with interners := session.interners ++ [.withMaxSlots maxSlots] }
  | internToken number kind text => do
    let interner ← heldInterner number
    let (shared, later) ← perform (interner.token kind text)
    putInterner number later
    hold (.token shared)
  | internNode number kind contents => do
    let interner ← heldInterner number
    let slots ← contents.mapM content
    let (shared, later) ← perform (interner.node kind slots)
    putInterner number later
    hold (.node shared)
  | clearInterner number => do
    let interner ← heldInterner number
    let later ← perform interner.clear
    putInterner number later
  | look place index => do
    let slot ← perform (Build.ofMisuse ((← locate place).green.slot index))
    hold slot
  | edit place edits => do
    let node ← locate place
    let edits ← edits.mapM EditCall.resolve
    holdTree (← perform (node.stage.tryEdits edits).1.apply)
  | replaceSlot place index value => do
    let node ← locate place
    let value ← content value
    holdTree (← perform (node.replaceSlot index value))
  | replaceSlots place contents => do
    let node ← locate place
    let values ← contents.mapM fun entry => return (entry.1, ← content entry.2)
    holdTree (← perform (node.replaceSlots values))
  | replaceNode place element => do
    let node ← locate place
    let green ← heldNode element
    holdTree (← perform (node.replaceWith green))
  | replaceToken place index element => do
    let parent ← locate place
    let token ← perform (Build.ofMisuse (parent.requireToken index "slot holds a token"))
    let green ← heldToken element
    let replaced ← perform (token.replaceWith green)
    replaced.parent?.forM holdTree

namespace Client

variable {Memory : Type}

/-- Transforms a subtree and holds the tree it is put into, or else the transformed node alone. -/
def transform (place : Place) (splice : Bool) (parts : Transform (Client Memory)) :
    Client Memory Unit := do
  let node ← locate place
  if splice then
    holdTree (← node.transform parts)
  else
    hold (.node (← parts.greenOf node))

/-- A transform that asks for each node and token what to do, and is answered with a reference. -/
def transformBy
    (onNode : Red.Node → Session Memory → Client Memory Green.Node → Client Memory Nat)
    (onToken : Red.Token → Session Memory → Client Memory Nat) : Transform (Client Memory) where
  onNode self rebuilt := do heldNode (← onNode self (← get) rebuilt)
  onToken token := do heldToken (← onToken token (← get))

end Client

/-- What a client does, up to an answer. -/
inductive Script (Memory : Type)
  | answer (reference : Nat)
  | stop (reason : Halt)
  | remember (memory : Memory) (next : Script Memory)
  | call (call : Call) (next : Option Halt → Session Memory → Script Memory)
  /-- Has the slots of the visited node transformed, and holds the outcome. -/
  | rebuild (next : Option Halt → Session Memory → Script Memory)
  /-- Transforms a subtree by scripts for nodes and tokens, and holds the outcome. -/
  | transform (place : Place) (splice : Bool)
      (onNode : Red.Node → Session Memory → Script Memory)
      (onToken : Red.Token → Session Memory → Script Memory)
      (next : Option Halt → Session Memory → Script Memory)

namespace Script

open Client

variable {Memory : Type}

/-- Runs a script at a visited node, which `rebuilt` transforms the slots of. -/
def run (rebuilt : Client Memory Green.Node) : Script Memory → Client Memory Nat
  | answer reference => return reference
  | stop reason => throw reason
  | remember memory next => do
    modify fun session => { session with memory }
    next.run rebuilt
  | call made next => do
    let outcome ← attempt made.run
    (next outcome (← get)).run rebuilt
  | rebuild next => do
    let outcome ← attempt (do hold (.node (← rebuilt)))
    (next outcome (← get)).run rebuilt
  | transform place splice onNode onToken next => do
    let parts := transformBy (fun self session rebuilt => (onNode self session).run rebuilt)
      (fun token session => (onToken token session).run (throw (.dangling 0)))
    let outcome ← attempt (Client.transform place splice parts)
    (next outcome (← get)).run rebuilt

/-- The session after a client has done what it does, beginning with nothing. -/
def finalSession (script : Script Memory) (memory : Memory) : Session Memory :=
  match script.run (throw (.dangling 0)) ⟨.empty, [], [], memory⟩ with
  | .ok _ session | .error _ session => session

end Script

end SyntaxTree
