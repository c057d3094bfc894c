import SyntaxTree.Typed.Field
import SyntaxTree.Green.Create

/-!
Typed constructors. Each makes a new root from one value per field, in layout order.
-/

namespace SyntaxTree.Typed

def NodeOf.create (kind : NodeKind) (slots : List Green.Slot) : Build (NodeOf kind) := do
  NodeOf.require kind (.root (← Green.Node.create kind slots []))

def ModulePart.create (statements : NodeList Statement) (eof : Red.Token) : Build ModulePart :=
  NodeOf.create .modulePart [nodeSlot statements, tokenSlot eof]

def ReturnStatement.create (keyword : Red.Token) (expression : Option Expression)
    (semicolon : Red.Token) : Build ReturnStatement :=
  NodeOf.create .returnStatement
    [tokenSlot keyword, optionalNodeSlot expression, tokenSlot semicolon]

def ExpressionStatement.create (expression : Expression) (semicolon : Red.Token) :
    Build ExpressionStatement :=
  NodeOf.create .expressionStatement [nodeSlot expression, tokenSlot semicolon]

def FunctionCallExpression.create (name : NameReference) (openParen : Red.Token)
    (arguments : NodeList FunctionArgument) (closeParen : Red.Token) :
    Build FunctionCallExpression :=
  NodeOf.create .functionCallExpression
    [nodeSlot name, tokenSlot openParen, nodeSlot arguments, tokenSlot closeParen]

def PositionalArgument.create (comma : Option Red.Token) (expression : Expression) :
    Build PositionalArgument :=
  NodeOf.create .positionalArgument [optionalTokenSlot comma, nodeSlot expression]

def NamedArgument.create (comma : Option Red.Token) (name : SimpleNameReference)
    (equals : Red.Token) (expression : Expression) : Build NamedArgument :=
  NodeOf.create .namedArgument
    [optionalTokenSlot comma, nodeSlot name, tokenSlot equals, nodeSlot expression]

def RestArgument.create (comma ellipsis : Red.Token) (expression : Expression) :
    Build RestArgument :=
  NodeOf.create .restArgument [tokenSlot comma, tokenSlot ellipsis, nodeSlot expression]

def BinaryExpression.create (lhs : Expression) (operator : Red.Token) (rhs : Expression) :
    Build BinaryExpression :=
  NodeOf.create .binaryExpression [nodeSlot lhs, tokenSlot operator, nodeSlot rhs]

def BracedExpression.create (openParen : Red.Token) (expression : Expression)
    (closeParen : Red.Token) : Build BracedExpression :=
  NodeOf.create .bracedExpression [tokenSlot openParen, nodeSlot expression, tokenSlot closeParen]

def SimpleNameReference.create (name : Red.Token) : Build SimpleNameReference :=
  NodeOf.create .simpleNameReference [tokenSlot name]

def QualifiedNameReference.create (modulePrefix colon identifier : Red.Token) :
    Build QualifiedNameReference :=
  NodeOf.create .qualifiedNameReference
    [tokenSlot modulePrefix, tokenSlot colon, tokenSlot identifier]

def BasicLiteral.create (literal : Red.Token) : Build BasicLiteral :=
  NodeOf.create .basicLiteral [tokenSlot literal]

def NodeList.create {Element : Type} [View Element] (elements : List Element) :
    Build (NodeList Element) := do
  let greens := elements.map fun element => (View.node element).green
  NodeList.require (.root (← Green.Node.createList greens))

end SyntaxTree.Typed
