import SyntaxTree.Red

/-!
Handles: red values with an identity of their own. Asking for the same slot twice makes two handles
at the same place; a handle shares the handles of its ancestors with the handle it was reached from.
-/

namespace SyntaxTree.Red

/-- A node with the stamps of its own handle and of those of its ancestors, innermost first. -/
structure NodeHandle where
  node : Node
  stamps : List Stamp

/-- A token with the stamps of the handles of its ancestors, innermost first. -/
structure TokenHandle where
  token : Token
  stamps : List Stamp

abbrev HandleSlot := SyntaxTree.Slot NodeHandle TokenHandle

def freshStamps : List Node → Build (List Stamp)
  | [] => pure []
  | _ :: rest => do
    let stamp ← Build.freshStamp
    return stamp :: (← freshStamps rest)

namespace NodeHandle

/-- A new handle whose ancestors are new as well. -/
def fresh (node : Node) : Build NodeHandle := return ⟨node, ← freshStamps node.ancestors⟩

/-- The same handle, which `identical` tells apart from others at the same place. -/
def identical (first second : NodeHandle) : Bool := first.stamps == second.stamps

def parent? (handle : NodeHandle) : Option NodeHandle :=
  handle.node.parent?.map fun parent => ⟨parent, handle.stamps.tail⟩

def treeRoot (handle : NodeHandle) : NodeHandle :=
  ⟨handle.node.treeRoot, handle.stamps.drop (handle.stamps.length - 1)⟩

/-- The slot at `index`, with a new handle for a node. -/
def slot (handle : NodeHandle) (index : Nat) : Build HandleSlot := do
  match ← Build.ofMisuse (handle.node.slot index) with
  | .node child => return .node ⟨child, (← Build.freshStamp) :: handle.stamps⟩
  | .token token => return .token ⟨token, handle.stamps⟩
  | .absent => return .absent

/-- The handle after an edit of its node: the same one if the edit changed nothing. -/
def afterEdit (handle : NodeHandle) (edited : Node) : Build NodeHandle :=
  if edited.samePlace handle.node then pure handle else fresh edited

end NodeHandle

namespace TokenHandle

def fresh (token : Token) : Build TokenHandle := return ⟨token, ← freshStamps token.ancestors⟩

def parent? (handle : TokenHandle) : Option NodeHandle :=
  handle.token.parent?.map fun parent => ⟨parent, handle.stamps⟩

def afterEdit (handle : TokenHandle) (edited : Token) : Build TokenHandle :=
  if edited.samePlace handle.token then pure handle else fresh edited

end TokenHandle

def HandleSlot.value : HandleSlot → Slot := .map (·.node) (·.token)

end SyntaxTree.Red
