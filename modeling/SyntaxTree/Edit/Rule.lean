import SyntaxTree.Edit.Transform

/-!
Transforming by rules. A rule applies by kind and full text, read off the old tree, and the first
rule that applies decides. Texts are looked at only where a rule asks for one.
-/

namespace SyntaxTree

/-- A condition on kind and text, either of which may be left open, and an answer. -/
structure Rule (Answer : Type) where
  kind : Option Kind
  text : Option String
  answer : Answer

namespace Rule

variable {Answer : Type}

def applies (rule : Rule Answer) (kind : Kind) (hasText : String → Bool) : Bool :=
  rule.kind.all (· == kind) && rule.text.all hasText

def first? (rules : List (Rule Answer)) (kind : Kind) (hasText : String → Bool) : Option Answer :=
  (rules.find? (·.applies kind hasText)).map (·.answer)

end Rule

inductive NodeAnswer
  | replace (green : Green.Node)
  /-- The node stays, and nothing below it is looked at. -/
  | keep
  /-- The transformed node is put in parentheses. -/
  | parenthesize

/-- Wraps an expression in new parentheses. -/
def Green.Slot.parenthesized (slot : Green.Slot) : Build Green.Node := do
  let openParen ← Green.Token.createFixed TokenKind.openParen
  let closeParen ← Green.Token.createFixed TokenKind.closeParen
  Green.Node.create NodeKind.bracedExpression [.token openParen, slot, .token closeParen] []

def Transform.ofRules (tokenRules : List (Rule Green.Token)) (nodeRules : List (Rule NodeAnswer)) :
    Transform Build where
  onNode node rebuilt :=
    match Rule.first? nodeRules node.kind node.green.hasText with
    | some (.replace green) => return green
    | some .keep => return node.green
    | some .parenthesize => do Green.Slot.parenthesized (.node (← rebuilt))
    | none => rebuilt
  onToken token :=
    return (Rule.first? tokenRules token.kind (token.text == ·)).getD token.green

end SyntaxTree
