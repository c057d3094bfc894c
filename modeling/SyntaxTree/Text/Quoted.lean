import SyntaxTree.Text.CharacterClass

/-!
Quoted text. Quotes, backslashes and line controls get a short escape; what would not be seen, or
would merge with the character before it, is written by its code point.
-/

namespace SyntaxTree.Text

/-- The code point in lower-case hexadecimal without padding. -/
def escapeCode (character : Char) : List Char :=
  ['\\', 'u', '\x7b'] ++ Nat.toDigits 16 character.toNat ++ ['\x7d']

def escape (character : Char) : List Char :=
  match character with
  | '\x00' => ['\\', '0']
  | '\t' => ['\\', 't']
  | '\n' => ['\\', 'n']
  | '\r' => ['\\', 'r']
  | '"' => ['\\', '"']
  | '\\' => ['\\', '\\']
  | other =>
    if isMark other || isInvisible other then escapeCode other else [other]

def quoted (text : String) : String :=
  String.ofList ('"' :: text.toList.flatMap escape ++ ['"'])

end SyntaxTree.Text
