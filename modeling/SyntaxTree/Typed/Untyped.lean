import SyntaxTree.Typed.Create

/-!
The typed layer for callers that learn the types when they run: views by name, and typed values from
green ones.
-/

namespace SyntaxTree.Typed

/-- A view together with the type of its values. -/
structure AnyView where
  Value : Type
  view : View Value

namespace AnyView

def of (Value : Type) [view : View Value] : AnyView := ⟨Value, view⟩

def all : List (String × AnyView) :=
  [("ModulePart", of ModulePart), ("ReturnStatement", of ReturnStatement),
    ("ExpressionStatement", of ExpressionStatement),
    ("FunctionCallExpression", of FunctionCallExpression),
    ("PositionalArgument", of PositionalArgument), ("NamedArgument", of NamedArgument),
    ("RestArgument", of RestArgument), ("BinaryExpression", of BinaryExpression),
    ("BracedExpression", of BracedExpression), ("SimpleNameReference", of SimpleNameReference),
    ("QualifiedNameReference", of QualifiedNameReference), ("BasicLiteral", of BasicLiteral),
    ("SyntaxList", of SyntaxList), ("Expression", of Expression),
    ("FunctionArgument", of FunctionArgument), ("Statement", of Statement),
    ("NameReference", of NameReference), ("NodeList", of (NodeList Statement)),
    ("AnyNode", of AnyNode)]

def ofName? (name : String) : Option AnyView := all.lookup name

end AnyView

/-- Why a green value is no value of a type. -/
inductive Refusal
  | notANode
  | notAToken
  /-- The view does not accept the kind. -/
  | unaccepted (kind : NodeKind)
  deriving DecidableEq

abbrev Conversion := Except Refusal

def asNode : Green.Slot → Conversion Green.Node
  | .node node => pure node
  | .token _ | .absent => throw .notANode

def asToken : Green.Slot → Conversion Red.Token
  | .token token => pure (.detached token)
  | .node _ | .absent => throw .notAToken

/-- The value of a view for a node. -/
def asView {Value : Type} [View Value] (node : Red.Node) : Conversion Value :=
  match View.ofNode? node with
  | some value => pure value
  | none => throw (.unaccepted node.kind)

/-- The value of a view for a green node, which is made a root first. -/
def asRoot {Value : Type} [View Value] (slot : Green.Slot) : Conversion Value := do
  asView (.root (← asNode slot))

/-- The value that a green slot, or nothing at all, gives for a field. An optional field is left out
by giving nothing; an absent slot is no value of any field. -/
def FieldType.ofGreen : (type : FieldType) → Option Green.Slot → Conversion type.Value
  | token => fun slot => asToken (slot.getD .absent)
  | optionalToken => fun slot => slot.mapM asToken
  | expression => fun slot => asRoot (slot.getD .absent)
  | optionalExpression => fun slot => slot.mapM asRoot
  | nameReference => fun slot => asRoot (slot.getD .absent)
  | simpleNameReference => fun slot => asRoot (slot.getD .absent)
  | statements => fun slot => asRoot (slot.getD .absent)
  | arguments => fun slot => asRoot (slot.getD .absent)

/-- Calls the typed constructor of a kind. The value of each field is asked for in layout order, and
only when those before it have been given. A list is made empty. -/
def createWith {Action : Type → Type} [Monad Action] [MonadLiftT Build Action] :
    (kind : NodeKind) → ((type : FieldType) → Field kind type → Action type.Value) →
      Action Red.Node
  | .modulePart, supply => do
    return (← ModulePart.create (← supply _ ModulePart.statements)
      (← supply _ ModulePart.eofToken)).node
  | .returnStatement, supply => do
    return (← ReturnStatement.create (← supply _ ReturnStatement.returnKeyword)
      (← supply _ ReturnStatement.expression) (← supply _ ReturnStatement.semicolonToken)).node
  | .expressionStatement, supply => do
    return (← ExpressionStatement.create (← supply _ ExpressionStatement.expression)
      (← supply _ ExpressionStatement.semicolonToken)).node
  | .functionCallExpression, supply => do
    return (← FunctionCallExpression.create (← supply _ FunctionCallExpression.functionName)
      (← supply _ FunctionCallExpression.openParenToken)
      (← supply _ FunctionCallExpression.arguments)
      (← supply _ FunctionCallExpression.closeParenToken)).node
  | .positionalArgument, supply => do
    return (← PositionalArgument.create (← supply _ PositionalArgument.leadingComma)
      (← supply _ PositionalArgument.expression)).node
  | .namedArgument, supply => do
    return (← NamedArgument.create (← supply _ NamedArgument.leadingComma)
      (← supply _ NamedArgument.argumentName) (← supply _ NamedArgument.equalsToken)
      (← supply _ NamedArgument.expression)).node
  | .restArgument, supply => do
    return (← RestArgument.create (← supply _ RestArgument.leadingComma)
      (← supply _ RestArgument.ellipsis) (← supply _ RestArgument.expression)).node
  | .binaryExpression, supply => do
    return (← BinaryExpression.create (← supply _ BinaryExpression.lhsExpr)
      (← supply _ BinaryExpression.operator) (← supply _ BinaryExpression.rhsExpr)).node
  | .bracedExpression, supply => do
    return (← BracedExpression.create (← supply _ BracedExpression.openParen)
      (← supply _ BracedExpression.expression) (← supply _ BracedExpression.closeParen)).node
  | .simpleNameReference, supply => do
    return (← SimpleNameReference.create (← supply _ SimpleNameReference.name)).node
  | .qualifiedNameReference, supply => do
    return (← QualifiedNameReference.create (← supply _ QualifiedNameReference.modulePrefix)
      (← supply _ QualifiedNameReference.colon)
      (← supply _ QualifiedNameReference.identifier)).node
  | .basicLiteral, supply => do
    return (← BasicLiteral.create (← supply _ BasicLiteral.literalToken)).node
  | .list, _ => do
    return (← NodeList.create ([] : List AnyNode)).node

end SyntaxTree.Typed
