import SyntaxTree.Green.Create

/-!
Interning of small green values. Tokens are found again by kind and text, nodes by kind and the
identity of their slots, so that interning from the leaves up shares whole subtrees.
-/

namespace SyntaxTree

structure Interner where
  /-- Nodes with more slots than this are built but never shared. -/
  maxSlots : Nat
  nodes : List Green.Node
  tokens : List Green.Token
  hits : Nat
  misses : Nat

namespace Interner

def withMaxSlots (maxSlots : Nat) : Interner := ⟨maxSlots, [], [], 0, 0⟩

def empty : Interner := withMaxSlots 3

def findToken? (interner : Interner) (kind : Kind) (text : String) : Option Green.Token :=
  interner.tokens.find? fun token => kind == token.kind && token.text == text

def findNode? (interner : Interner) (kind : Kind) (slots : List Green.Slot) : Option Green.Node :=
  interner.nodes.find? fun node => kind == node.kind && Green.Slot.allIdentical node.slots slots

def token (interner : Interner) (kind : Kind) (text : String) : Build (Green.Token × Interner) := do
  match interner.findToken? kind text with
  | some token =>
    Build.record (.tokenShared token.kind text)
    return (token, { interner with hits := interner.hits + 1 })
  | none =>
    let token ← Green.Token.create kind text []
    return (token, { interner with
      tokens := token :: interner.tokens, misses := interner.misses + 1 })

def node (interner : Interner) (kind : Kind) (slots : List Green.Slot) :
    Build (Green.Node × Interner) := do
  if interner.maxSlots < slots.length then
    return (← Green.Node.create kind slots [], interner)
  else
    match interner.findNode? kind slots with
    | some node =>
      Build.record (.nodeShared node.kind)
      return (node, { interner with hits := interner.hits + 1 })
    | none =>
      let node ← Green.Node.create kind slots []
      return (node, { interner with
        nodes := node :: interner.nodes, misses := interner.misses + 1 })

/-- Forgets all values and keeps the counters. -/
def clear (interner : Interner) : Build Interner := do
  Build.record (.cacheCleared interner.hits interner.misses)
  return { interner with nodes := [], tokens := [] }

end Interner

end SyntaxTree
