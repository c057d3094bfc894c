import SyntaxTree.KindSet

/-!
Slot layouts. Every node kind but `list` has a fixed sequence of named slots, and each slot says
which values it takes. The layout table is the grammar of the library: validation, typed access and
staged edits all read it.
-/

namespace SyntaxTree

/-- What a slot takes: a token or a node of some kinds, or a `list` node whose elements are nodes of
some kinds. -/
inductive SlotShape
  | token (kinds : KindSet)
  | node (kinds : KindSet)
  | list (elements : KindSet)
  deriving DecidableEq

structure SlotSpec where
  name : String
  shape : SlotShape
  optional : Bool
  deriving DecidableEq

namespace SlotSpec

def token (name : String) (kind : TokenKind) : SlotSpec :=
  ⟨name, .token (.single kind), false⟩

def tokenOf (name : String) (kinds : KindSet) : SlotSpec :=
  ⟨name, .token kinds, false⟩

def optionalToken (name : String) (kind : TokenKind) : SlotSpec :=
  ⟨name, .token (.single kind), true⟩

def node (name : String) (kinds : KindSet) : SlotSpec :=
  ⟨name, .node kinds, false⟩

def optionalNode (name : String) (kinds : KindSet) : SlotSpec :=
  ⟨name, .node kinds, true⟩

def listOf (name : String) (elements : KindSet) : SlotSpec :=
  ⟨name, .list elements, false⟩

/-- The spec of an element of a list that no list slot holds. -/
def anyElement : SlotSpec :=
  node "element" .nodes

/-- The spec of the elements below a list slot; it keeps the name of the slot. -/
def element? (spec : SlotSpec) : Option SlotSpec :=
  match spec.shape with
  | .list elements => some (node spec.name elements)
  | .token _ | .node _ => none

end SlotSpec

namespace NodeKind

open SlotSpec in
/-- The slots of a kind in order. A list declares none, since its length varies. -/
def layout : NodeKind → List SlotSpec
  | modulePart => [listOf "statements" .statements, token "eofToken" .eof]
  | returnStatement =>
    [token "returnKeyword" .returnKeyword, optionalNode "expression" .expressions,
      token "semicolonToken" .semicolon]
  | expressionStatement => [node "expression" .expressions, token "semicolonToken" .semicolon]
  | functionCallExpression =>
    [node "functionName" .nameReferences, token "openParenToken" .openParen,
      listOf "arguments" .functionArguments, token "closeParenToken" .closeParen]
  | positionalArgument => [optionalToken "leadingComma" .comma, node "expression" .expressions]
  | namedArgument =>
    [optionalToken "leadingComma" .comma,
      node "argumentName" (.single NodeKind.simpleNameReference),
      token "equalsToken" .equal, node "expression" .expressions]
  | restArgument =>
    [token "leadingComma" .comma, token "ellipsis" .ellipsis, node "expression" .expressions]
  | binaryExpression =>
    [node "lhsExpr" .expressions, tokenOf "operator" .binaryOperators, node "rhsExpr" .expressions]
  | bracedExpression =>
    [token "openParen" .openParen, node "expression" .expressions, token "closeParen" .closeParen]
  | simpleNameReference => [token "name" .identifier]
  | qualifiedNameReference =>
    [token "modulePrefix" .identifier, token "colon" .colon, token "identifier" .identifier]
  | basicLiteral => [tokenOf "literalToken" .literals]
  | list => []

/-- The number of slots of every node of the kind, `none` for lists. -/
def arity? : NodeKind → Option Nat
  | list => none
  | kind => some kind.layout.length

def slotNames (kind : NodeKind) : List String :=
  kind.layout.map (·.name)

end NodeKind

namespace Kind

/-- Token kinds have the empty layout. -/
def layout : Kind → List SlotSpec
  | token _ => []
  | node kind => kind.layout

def arity? : Kind → Option Nat
  | token _ => some 0
  | node kind => kind.arity?

end Kind

end SyntaxTree
