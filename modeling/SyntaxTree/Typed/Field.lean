import SyntaxTree.Typed.View
import SyntaxTree.Layout

/-!
Typed fields: the slots of a kind with the types of their values. A field is read through a view of
its owner and written as a green slot.
-/

namespace SyntaxTree.Typed

inductive FieldType
  | token
  | optionalToken
  | expression
  | optionalExpression
  | nameReference
  | simpleNameReference
  | statements
  | arguments
  deriving DecidableEq, Repr

/-- Values of a field. -/
abbrev FieldType.Value : FieldType → Type
  | token => Red.Token
  | optionalToken => Option Red.Token
  | expression => Expression
  | optionalExpression => Option Expression
  | nameReference => NameReference
  | simpleNameReference => SimpleNameReference
  | statements => NodeList Statement
  | arguments => NodeList FunctionArgument

def tokenSlot (token : Red.Token) : Green.Slot := .token token.green

def optionalTokenSlot (token : Option Red.Token) : Green.Slot := token.elim .absent tokenSlot

def nodeSlot {Value : Type} [View Value] (value : Value) : Green.Slot :=
  .node (View.node value).green

def optionalNodeSlot {Value : Type} [View Value] (value : Option Value) : Green.Slot :=
  value.elim .absent nodeSlot

def nodeOfSlot? {Value : Type} [View Value] (slot : Red.Slot) : Option Value :=
  slot.node?.bind View.ofNode?

namespace FieldType

/-- What a value is stored as. -/
def toGreen : (type : FieldType) → type.Value → Green.Slot
  | token => tokenSlot
  | optionalToken => optionalTokenSlot
  | expression => nodeSlot
  | optionalExpression => optionalNodeSlot
  | nameReference => nodeSlot
  | simpleNameReference => nodeSlot
  | statements => nodeSlot
  | arguments => nodeSlot

/-- Reads a value from a slot. An optional value reads as missing where a required one fails. -/
def ofSlot? : (type : FieldType) → Red.Slot → Option type.Value
  | token => (·.token?)
  | optionalToken => fun slot => some slot.token?
  | expression => nodeOfSlot?
  | optionalExpression => fun slot => some (nodeOfSlot? slot)
  | nameReference => nodeOfSlot?
  | simpleNameReference => nodeOfSlot?
  | statements => nodeOfSlot?
  | arguments => nodeOfSlot?

end FieldType

structure Field (owner : NodeKind) (type : FieldType) where
  index : Nat

namespace ModulePart

def statements : Field .modulePart .statements := ⟨0⟩
def eofToken : Field .modulePart .token := ⟨1⟩

end ModulePart

namespace ReturnStatement

def returnKeyword : Field .returnStatement .token := ⟨0⟩
def expression : Field .returnStatement .optionalExpression := ⟨1⟩
def semicolonToken : Field .returnStatement .token := ⟨2⟩

end ReturnStatement

namespace ExpressionStatement

def expression : Field .expressionStatement .expression := ⟨0⟩
def semicolonToken : Field .expressionStatement .token := ⟨1⟩

end ExpressionStatement

namespace FunctionCallExpression

def functionName : Field .functionCallExpression .nameReference := ⟨0⟩
def openParenToken : Field .functionCallExpression .token := ⟨1⟩
def arguments : Field .functionCallExpression .arguments := ⟨2⟩
def closeParenToken : Field .functionCallExpression .token := ⟨3⟩

end FunctionCallExpression

namespace PositionalArgument

def leadingComma : Field .positionalArgument .optionalToken := ⟨0⟩
def expression : Field .positionalArgument .expression := ⟨1⟩

end PositionalArgument

namespace NamedArgument

def leadingComma : Field .namedArgument .optionalToken := ⟨0⟩
def argumentName : Field .namedArgument .simpleNameReference := ⟨1⟩
def equalsToken : Field .namedArgument .token := ⟨2⟩
def expression : Field .namedArgument .expression := ⟨3⟩

end NamedArgument

namespace RestArgument

def leadingComma : Field .restArgument .token := ⟨0⟩
def ellipsis : Field .restArgument .token := ⟨1⟩
def expression : Field .restArgument .expression := ⟨2⟩

end RestArgument

namespace BinaryExpression

def lhsExpr : Field .binaryExpression .expression := ⟨0⟩
def operator : Field .binaryExpression .token := ⟨1⟩
def rhsExpr : Field .binaryExpression .expression := ⟨2⟩

end BinaryExpression

namespace BracedExpression

def openParen : Field .bracedExpression .token := ⟨0⟩
def expression : Field .bracedExpression .expression := ⟨1⟩
def closeParen : Field .bracedExpression .token := ⟨2⟩

end BracedExpression

namespace SimpleNameReference

def name : Field .simpleNameReference .token := ⟨0⟩

end SimpleNameReference

namespace QualifiedNameReference

def modulePrefix : Field .qualifiedNameReference .token := ⟨0⟩
def colon : Field .qualifiedNameReference .token := ⟨1⟩
def identifier : Field .qualifiedNameReference .token := ⟨2⟩

end QualifiedNameReference

namespace BasicLiteral

def literalToken : Field .basicLiteral .token := ⟨0⟩

end BasicLiteral

/-- A field of any type. -/
structure AnyField (owner : NodeKind) where
  type : FieldType
  field : Field owner type

/-- All typed fields of a kind. Lists have none. -/
def fieldsOf : (owner : NodeKind) → List (AnyField owner)
  | .modulePart => [⟨_, ModulePart.statements⟩, ⟨_, ModulePart.eofToken⟩]
  | .returnStatement =>
    [⟨_, ReturnStatement.returnKeyword⟩, ⟨_, ReturnStatement.expression⟩,
      ⟨_, ReturnStatement.semicolonToken⟩]
  | .expressionStatement =>
    [⟨_, ExpressionStatement.expression⟩, ⟨_, ExpressionStatement.semicolonToken⟩]
  | .functionCallExpression =>
    [⟨_, FunctionCallExpression.functionName⟩, ⟨_, FunctionCallExpression.openParenToken⟩,
      ⟨_, FunctionCallExpression.arguments⟩, ⟨_, FunctionCallExpression.closeParenToken⟩]
  | .positionalArgument =>
    [⟨_, PositionalArgument.leadingComma⟩, ⟨_, PositionalArgument.expression⟩]
  | .namedArgument =>
    [⟨_, NamedArgument.leadingComma⟩, ⟨_, NamedArgument.argumentName⟩,
      ⟨_, NamedArgument.equalsToken⟩, ⟨_, NamedArgument.expression⟩]
  | .restArgument =>
    [⟨_, RestArgument.leadingComma⟩, ⟨_, RestArgument.ellipsis⟩, ⟨_, RestArgument.expression⟩]
  | .binaryExpression =>
    [⟨_, BinaryExpression.lhsExpr⟩, ⟨_, BinaryExpression.operator⟩, ⟨_, BinaryExpression.rhsExpr⟩]
  | .bracedExpression =>
    [⟨_, BracedExpression.openParen⟩, ⟨_, BracedExpression.expression⟩,
      ⟨_, BracedExpression.closeParen⟩]
  | .simpleNameReference => [⟨_, SimpleNameReference.name⟩]
  | .qualifiedNameReference =>
    [⟨_, QualifiedNameReference.modulePrefix⟩, ⟨_, QualifiedNameReference.colon⟩,
      ⟨_, QualifiedNameReference.identifier⟩]
  | .basicLiteral => [⟨_, BasicLiteral.literalToken⟩]
  | .list => []

namespace Field

variable {owner : NodeKind} {type : FieldType}

/-- The name of the slot in the layout. -/
def name (field : Field owner type) : String := (owner.layout[field.index]?).elim "" (·.name)

end Field

/-- Reads a field. There is no answer where a required value is not in place. -/
def NodeOf.get? {owner : NodeKind} {type : FieldType} (view : NodeOf owner)
    (field : Field owner type) : Option type.Value :=
  (view.node.slot? field.index).bind type.ofSlot?

end SyntaxTree.Typed
