import SyntaxTree.Kind

/-!
Sets of kinds, one bit per kind at its ordinal. Members are listed in declaration order.
-/

namespace SyntaxTree

structure KindSet where
  bits : BitVec 29
  deriving DecidableEq

namespace KindSet

def empty : KindSet := ⟨0⟩

def single (kind : Kind) : KindSet := ⟨BitVec.twoPow 29 kind.ordinal⟩

def union (first second : KindSet) : KindSet := ⟨first.bits ||| second.bits⟩

def ofList (kinds : List Kind) : KindSet :=
  kinds.foldl (fun set kind => set.union (single kind)) empty

def contains (set : KindSet) (kind : Kind) : Bool := set.bits.getLsbD kind.ordinal

@[simp]
theorem contains_single_iff {kind found : Kind} :
    (single kind).contains found = true ↔ found = kind := by
  simp only [contains, single, BitVec.getLsbD_twoPow, kind.ordinal_lt, decide_true, Bool.true_and,
    decide_eq_true_eq]
  exact ⟨fun same => (Kind.ordinal_injective same).symm, fun same => by rw [same]⟩

def isEmpty (set : KindSet) : Bool := set.bits == 0

def members (set : KindSet) : List Kind := Kind.all.filter set.contains

instance : Union KindSet := ⟨union⟩

instance : EmptyCollection KindSet := ⟨empty⟩

/-- The members between braces, `\x7b\x7d` for the empty set. -/
def describe (set : KindSet) : String :=
  "\x7b" ++ ", ".intercalate (set.members.map Kind.name) ++ "\x7d"

def expressions : KindSet :=
  ofList [NodeKind.functionCallExpression, NodeKind.binaryExpression, NodeKind.bracedExpression,
    NodeKind.simpleNameReference, NodeKind.qualifiedNameReference, NodeKind.basicLiteral]

def functionArguments : KindSet :=
  ofList [NodeKind.positionalArgument, NodeKind.namedArgument, NodeKind.restArgument]

def statements : KindSet :=
  ofList [NodeKind.returnStatement, NodeKind.expressionStatement]

def nameReferences : KindSet :=
  ofList [NodeKind.simpleNameReference, NodeKind.qualifiedNameReference]

def binaryOperators : KindSet :=
  ofList [TokenKind.plus, TokenKind.minus, TokenKind.asterisk, TokenKind.slash]

def literals : KindSet :=
  ofList [TokenKind.decimalIntegerLiteral, TokenKind.stringLiteral]

def nodes : KindSet :=
  expressions ∪ functionArguments ∪ statements ∪ ofList [NodeKind.modulePart, NodeKind.list]

@[simp]
theorem contains_nodes (kind : NodeKind) : nodes.contains kind = true := by
  cases kind <;> rfl

end KindSet

end SyntaxTree
