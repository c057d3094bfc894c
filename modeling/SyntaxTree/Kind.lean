/-!
The closed set of kinds. A token kind names a leaf, a node kind an inner node; `Kind` is either, in
one declaration order that runs through all token kinds first.
-/

namespace SyntaxTree

inductive TokenKind
  | comma | colon | semicolon | ellipsis | openParen | closeParen | equal
  | plus | minus | asterisk | slash
  | returnKeyword | identifier | decimalIntegerLiteral | stringLiteral | eof
  deriving DecidableEq, Repr

inductive NodeKind
  | modulePart | returnStatement | expressionStatement | functionCallExpression
  | positionalArgument | namedArgument | restArgument
  | binaryExpression | bracedExpression
  | simpleNameReference | qualifiedNameReference | basicLiteral
  | list
  deriving DecidableEq, Repr

inductive Kind
  | token (kind : TokenKind)
  | node (kind : NodeKind)
  deriving DecidableEq, Repr

instance : Coe TokenKind Kind := ⟨.token⟩

instance : Coe NodeKind Kind := ⟨.node⟩

namespace TokenKind

def all : List TokenKind :=
  [comma, colon, semicolon, ellipsis, openParen, closeParen, equal, plus, minus, asterisk, slash,
    returnKeyword, identifier, decimalIntegerLiteral, stringLiteral, eof]

def name : TokenKind → String
  | comma => "COMMA"
  | colon => "COLON"
  | semicolon => "SEMICOLON"
  | ellipsis => "ELLIPSIS"
  | openParen => "OPEN_PAREN"
  | closeParen => "CLOSE_PAREN"
  | equal => "EQUAL"
  | plus => "PLUS"
  | minus => "MINUS"
  | asterisk => "ASTERISK"
  | slash => "SLASH"
  | returnKeyword => "RETURN_KEYWORD"
  | identifier => "IDENTIFIER"
  | decimalIntegerLiteral => "DECIMAL_INTEGER_LITERAL"
  | stringLiteral => "STRING_LITERAL"
  | eof => "EOF"

/-- The only text that punctuation and keywords are written with. -/
def fixedText? : TokenKind → Option String
  | comma => some ","
  | colon => some ":"
  | semicolon => some ";"
  | ellipsis => some "..."
  | openParen => some "("
  | closeParen => some ")"
  | equal => some "="
  | plus => some "+"
  | minus => some "-"
  | asterisk => some "*"
  | slash => some "/"
  | returnKeyword => some "return"
  | identifier | decimalIntegerLiteral | stringLiteral | eof => none

end TokenKind

namespace NodeKind

def all : List NodeKind :=
  [modulePart, returnStatement, expressionStatement, functionCallExpression, positionalArgument,
    namedArgument, restArgument, binaryExpression, bracedExpression, simpleNameReference,
    qualifiedNameReference, basicLiteral, list]

def name : NodeKind → String
  | modulePart => "MODULE_PART"
  | returnStatement => "RETURN_STATEMENT"
  | expressionStatement => "EXPRESSION_STATEMENT"
  | functionCallExpression => "FUNCTION_CALL_EXPRESSION"
  | positionalArgument => "POSITIONAL_ARGUMENT"
  | namedArgument => "NAMED_ARGUMENT"
  | restArgument => "REST_ARGUMENT"
  | binaryExpression => "BINARY_EXPRESSION"
  | bracedExpression => "BRACED_EXPRESSION"
  | simpleNameReference => "SIMPLE_NAME_REFERENCE"
  | qualifiedNameReference => "QUALIFIED_NAME_REFERENCE"
  | basicLiteral => "BASIC_LITERAL"
  | list => "LIST"

end NodeKind

namespace Kind

def all : List Kind :=
  TokenKind.all.map token ++ NodeKind.all.map node

def name : Kind → String
  | token kind => kind.name
  | node kind => kind.name

def ofName? (name : String) : Option Kind :=
  all.find? (·.name == name)

/-- Place in the declaration order. -/
def ordinal : Kind → Nat
  | token kind => kind.ctorIdx
  | node kind => TokenKind.all.length + kind.ctorIdx

theorem ordinal_token_lt (kind : TokenKind) : (token kind).ordinal < TokenKind.all.length := by
  cases kind <;> decide

theorem ordinal_lt (kind : Kind) : kind.ordinal < 29 := by
  cases kind with
  | token kind => exact Nat.lt_trans (ordinal_token_lt kind) (by decide)
  | node kind => cases kind <;> decide

theorem ordinal_injective {first second : Kind} (same : first.ordinal = second.ordinal) :
    first = second := by
  cases first with
  | token first =>
      cases second with
      | token second =>
          rw [← TokenKind.ofNat_ctorIdx first, ← TokenKind.ofNat_ctorIdx second]
          exact congrArg (fun index => token (.ofNat index)) same
      | node second =>
          have below := ordinal_token_lt first
          rw [same] at below
          exact absurd below (Nat.not_lt.mpr (Nat.le_add_right _ _))
  | node first =>
      cases second with
      | token second =>
          have below := ordinal_token_lt second
          rw [← same] at below
          exact absurd below (Nat.not_lt.mpr (Nat.le_add_right _ _))
      | node second =>
          rw [← NodeKind.ofNat_ctorIdx first, ← NodeKind.ofNat_ctorIdx second]
          exact congrArg (fun index => node (.ofNat index)) (Nat.add_left_cancel same)

def isToken : Kind → Bool
  | token _ => true
  | node _ => false

def isNode (kind : Kind) : Bool :=
  !kind.isToken

def fixedText? : Kind → Option String
  | token kind => kind.fixedText?
  | node _ => none

instance : Ord Kind := ⟨fun first second => compare first.ordinal second.ordinal⟩

instance : ToString Kind := ⟨name⟩

end Kind

instance : ToString TokenKind := ⟨TokenKind.name⟩

instance : ToString NodeKind := ⟨NodeKind.name⟩

end SyntaxTree
