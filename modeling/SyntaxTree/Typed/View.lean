import SyntaxTree.Red
import SyntaxTree.Text.Record

/-!
Typed views of red nodes: one type per node kind, and closed unions of them for the places of the
grammar where several kinds may stand. A view wraps the node it is made from.
-/

namespace SyntaxTree

/-- The name of the typed view of a kind. -/
def NodeKind.typeName : NodeKind → String
  | modulePart => "ModulePart"
  | returnStatement => "ReturnStatement"
  | expressionStatement => "ExpressionStatement"
  | functionCallExpression => "FunctionCallExpression"
  | positionalArgument => "PositionalArgument"
  | namedArgument => "NamedArgument"
  | restArgument => "RestArgument"
  | binaryExpression => "BinaryExpression"
  | bracedExpression => "BracedExpression"
  | simpleNameReference => "SimpleNameReference"
  | qualifiedNameReference => "QualifiedNameReference"
  | basicLiteral => "BasicLiteral"
  | list => "SyntaxList"

namespace Typed

/-- A typed view of nodes: which kinds it accepts, how it is made from a node, and the node behind
it. -/
class View (Value : Type) where
  accepts : Kind → Bool
  ofNode? : Red.Node → Option Value
  node : Value → Red.Node
  describe : Value → String

/-- A node of one kind. -/
structure NodeOf (kind : NodeKind) where
  node : Red.Node
  kind_eq : node.kind = kind

abbrev ModulePart := NodeOf .modulePart
abbrev ReturnStatement := NodeOf .returnStatement
abbrev ExpressionStatement := NodeOf .expressionStatement
abbrev FunctionCallExpression := NodeOf .functionCallExpression
abbrev PositionalArgument := NodeOf .positionalArgument
abbrev NamedArgument := NodeOf .namedArgument
abbrev RestArgument := NodeOf .restArgument
abbrev BinaryExpression := NodeOf .binaryExpression
abbrev BracedExpression := NodeOf .bracedExpression
abbrev SimpleNameReference := NodeOf .simpleNameReference
abbrev QualifiedNameReference := NodeOf .qualifiedNameReference
abbrev BasicLiteral := NodeOf .basicLiteral
/-- A list whose element type is left open. -/
abbrev SyntaxList := NodeOf .list

namespace NodeOf

variable {kind : NodeKind}

def ofNode? (node : Red.Node) : Option (NodeOf kind) :=
  if isKind : node.kind = kind then some ⟨node, isKind⟩ else none

/-- The view of a node that is known to be of the kind. -/
def require (kind : NodeKind) (node : Red.Node) : Build (NodeOf kind) :=
  match ofNode? node with
  | some view => pure view
  | none => Build.misuse (.wrongKind kind node.kind)

def describe (view : NodeOf kind) : String := Text.wrapped kind.typeName view.node.describe

instance : View (NodeOf kind) where
  accepts found := found == kind
  ofNode? := ofNode?
  node := node
  describe := describe

end NodeOf

inductive Expression
  | functionCall (call : FunctionCallExpression)
  | binary (expression : BinaryExpression)
  | braced (expression : BracedExpression)
  | simpleName (name : SimpleNameReference)
  | qualifiedName (name : QualifiedNameReference)
  | literal (literal : BasicLiteral)

inductive FunctionArgument
  | positional (argument : PositionalArgument)
  | named (argument : NamedArgument)
  | rest (argument : RestArgument)

inductive Statement
  | returning (statement : ReturnStatement)
  | expression (statement : ExpressionStatement)

inductive NameReference
  | simple (name : SimpleNameReference)
  | qualified (name : QualifiedNameReference)

namespace Expression

def accepts : Kind → Bool
  | .node .functionCallExpression | .node .binaryExpression | .node .bracedExpression
  | .node .simpleNameReference | .node .qualifiedNameReference | .node .basicLiteral => true
  | _ => false

def ofNode? (node : Red.Node) : Option Expression :=
  match isKind : node.kind with
  | .functionCallExpression => some (functionCall ⟨node, isKind⟩)
  | .binaryExpression => some (binary ⟨node, isKind⟩)
  | .bracedExpression => some (braced ⟨node, isKind⟩)
  | .simpleNameReference => some (simpleName ⟨node, isKind⟩)
  | .qualifiedNameReference => some (qualifiedName ⟨node, isKind⟩)
  | .basicLiteral => some (literal ⟨node, isKind⟩)
  | _ => none

def node : Expression → Red.Node
  | functionCall view => view.node
  | binary view => view.node
  | braced view => view.node
  | simpleName view => view.node
  | qualifiedName view => view.node
  | literal view => view.node

def describe : Expression → String
  | functionCall view => Text.wrapped "FunctionCall" view.describe
  | binary view => Text.wrapped "Binary" view.describe
  | braced view => Text.wrapped "Braced" view.describe
  | simpleName view => Text.wrapped "SimpleName" view.describe
  | qualifiedName view => Text.wrapped "QualifiedName" view.describe
  | literal view => Text.wrapped "Literal" view.describe

instance : View Expression := ⟨accepts, ofNode?, node, describe⟩

end Expression

namespace FunctionArgument

def accepts : Kind → Bool
  | .node .positionalArgument | .node .namedArgument | .node .restArgument => true
  | _ => false

def ofNode? (node : Red.Node) : Option FunctionArgument :=
  match isKind : node.kind with
  | .positionalArgument => some (positional ⟨node, isKind⟩)
  | .namedArgument => some (named ⟨node, isKind⟩)
  | .restArgument => some (rest ⟨node, isKind⟩)
  | _ => none

def node : FunctionArgument → Red.Node
  | positional view => view.node
  | named view => view.node
  | rest view => view.node

def describe : FunctionArgument → String
  | positional view => Text.wrapped "Positional" view.describe
  | named view => Text.wrapped "Named" view.describe
  | rest view => Text.wrapped "Rest" view.describe

instance : View FunctionArgument := ⟨accepts, ofNode?, node, describe⟩

end FunctionArgument

namespace Statement

def accepts : Kind → Bool
  | .node .returnStatement | .node .expressionStatement => true
  | _ => false

def ofNode? (node : Red.Node) : Option Statement :=
  match isKind : node.kind with
  | .returnStatement => some (returning ⟨node, isKind⟩)
  | .expressionStatement => some (expression ⟨node, isKind⟩)
  | _ => none

def node : Statement → Red.Node
  | returning view => view.node
  | expression view => view.node

def describe : Statement → String
  | returning view => Text.wrapped "Return" view.describe
  | expression view => Text.wrapped "Expression" view.describe

instance : View Statement := ⟨accepts, ofNode?, node, describe⟩

end Statement

namespace NameReference

def accepts : Kind → Bool
  | .node .simpleNameReference | .node .qualifiedNameReference => true
  | _ => false

def ofNode? (node : Red.Node) : Option NameReference :=
  match isKind : node.kind with
  | .simpleNameReference => some (simple ⟨node, isKind⟩)
  | .qualifiedNameReference => some (qualified ⟨node, isKind⟩)
  | _ => none

def node : NameReference → Red.Node
  | simple view => view.node
  | qualified view => view.node

def describe : NameReference → String
  | simple view => Text.wrapped "Simple" view.describe
  | qualified view => Text.wrapped "Qualified" view.describe

instance : View NameReference := ⟨accepts, ofNode?, node, describe⟩

/-- A name stands as an expression. -/
def toExpression : NameReference → Expression
  | simple view => .simpleName view
  | qualified view => .qualifiedName view

end NameReference

/-- A node viewed by its own kind. -/
structure AnyNode where
  kind : NodeKind
  view : NodeOf kind

namespace AnyNode

def ofNode (node : Red.Node) : AnyNode := ⟨node.kind, node, rfl⟩

def node (any : AnyNode) : Red.Node := any.view.node

def samePlace (first second : AnyNode) : Bool :=
  first.kind == second.kind && first.node.samePlace second.node

def describe (any : AnyNode) : String :=
  let name := if any.kind = .list then "List" else any.kind.typeName
  Text.wrapped name any.view.describe

instance : View AnyNode := ⟨Kind.isNode, fun node => some (ofNode node), node, describe⟩

end AnyNode

/-- A list node whose elements are read as values of one view. -/
structure NodeList (Element : Type) where
  node : Red.Node
  kind_eq : node.kind = .list

namespace NodeList

variable {Element : Type}

def ofNode? (node : Red.Node) : Option (NodeList Element) :=
  if isList : node.kind = .list then some ⟨node, isList⟩ else none

def require (node : Red.Node) : Build (NodeList Element) :=
  match ofNode? node with
  | some list => pure list
  | none => Build.misuse (.wrongKind .list node.kind)

def describe (list : NodeList Element) : String := Text.wrapped "NodeList" list.node.describe

instance : View (NodeList Element) where
  accepts found := found == NodeKind.list
  ofNode? := ofNode?
  node := node
  describe := describe

def len (list : NodeList Element) : Nat := list.node.slotCount

def isEmpty (list : NodeList Element) : Bool := list.len == 0

variable [View Element]

def get? (list : NodeList Element) (index : Nat) : Option Element :=
  (list.node.childNode? index).bind View.ofNode?

def toList (list : NodeList Element) : List Element :=
  list.node.childNodes.filterMap View.ofNode?

end NodeList

end Typed

end SyntaxTree
