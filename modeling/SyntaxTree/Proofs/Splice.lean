import SyntaxTree.Proofs.Replacement
import SyntaxTree.Text.Range

/-!
Edits as changes of text. Main statement: an edit replaces the bytes of the range of what it edits
by the text of the new contents, and answers a handle at the old place.
-/

namespace SyntaxTree

namespace Text

/-- A text with other bytes in a range. The range may not cut through a character. -/
def splice? (text : String) (range : TextRange) (new : String) : Option String := do
  let (front, _) ← splitAt? text range.start
  let (_, back) ← splitAt? text range.stop
  return front ++ new ++ back

theorem splice?_append (front middle back new : String) :
    splice? (front ++ middle ++ back) (.spanning front.utf8ByteSize middle.utf8ByteSize) new =
      some (front ++ new ++ back) := by
  have before : splitAt? (front ++ middle ++ back) front.utf8ByteSize =
      some (front, middle ++ back) := by
    rw [String.append_assoc, splitAt?_append]
  have behind : splitAt? (front ++ middle ++ back) (front.utf8ByteSize + middle.utf8ByteSize) =
      some (front ++ middle, back) := by
    rw [← String.utf8ByteSize_append, splitAt?_append]
  simp [splice?, TextRange.spanning, before, behind]

end Text

namespace Red

variable {root : Green.Node} {workspace : Workspace} {made : List Green.Slot}

namespace Node

variable {node : Node}

theorem InTree.splice (inTree : InTree root node) (history : Green.History workspace made)
    (rootMade : .node root ∈ made) (new : String) :
    Text.splice? root.text node.range new = some (node.textBefore ++ new ++ node.textAfter) := by
  rw [inTree.text_eq, range, inTree.offset_eq_size history rootMade,
    inTree.width_eq_size history rootMade, Text.splice?_append]

/-- Another node in place of a node changes the text of the tree there only. -/
theorem InTree.splice_regrown (inTree : InTree root node) (history : Green.History workspace made)
    (rootMade : .node root ∈ made) (serial : Nat) (green : Green.Node) :
    Text.splice? root.text node.range green.text =
      some (node.regrown serial green).treeRoot.text := by
  have grown := (inTree.regrown serial green).text_eq
  rw [regrown_textBefore, regrown_textAfter] at grown
  rw [inTree.splice history rootMade, text, grown, text, regrown_green]

theorem InTree.splice_self (inTree : InTree root node) (history : Green.History workspace made)
    (rootMade : .node root ∈ made) :
    Text.splice? root.text node.range node.text = some node.treeRoot.text := by
  rw [inTree.splice history rootMade, ← inTree.text_eq, inTree.treeRoot_eq]
  rfl

end Node

namespace Token

variable {token : Token}

theorem InTree.splice (inTree : InTree root token) (history : Green.History workspace made)
    (rootMade : .node root ∈ made) (new : String) :
    Text.splice? root.text token.range new = some (token.textBefore ++ new ++ token.textAfter) := by
  rw [inTree.text_eq, range, inTree.offset_eq_size history rootMade]
  exact Text.splice?_append _ _ _ _

theorem InTree.splice_regrown (inTree : InTree root token) (history : Green.History workspace made)
    (rootMade : .node root ∈ made) (serial : Nat) (green : Green.Token) :
    ∃ treeRoot, (token.regrown serial green).treeRoot? = some treeRoot ∧
      Text.splice? root.text token.range green.text = some treeRoot.text := by
  obtain ⟨grown, treeRoot_eq, grownInTree⟩ := inTree.regrown serial green
  refine ⟨_, treeRoot_eq, ?_⟩
  have text_eq := grownInTree.text_eq
  rw [regrown_textBefore, regrown_textAfter, text, regrown_green] at text_eq
  rw [inTree.splice history rootMade, Node.text, Node.green, text_eq]

theorem InTree.splice_self (inTree : InTree root token) (history : Green.History workspace made)
    (rootMade : .node root ∈ made) :
    ∃ treeRoot, token.treeRoot? = some treeRoot ∧
      Text.splice? root.text token.range token.text = some treeRoot.text := by
  refine ⟨_, inTree.treeRoot?_eq, ?_⟩
  rw [inTree.splice history rootMade, ← inTree.text_eq]
  rfl

end Token

theorem apply_splices {node : Node} {staged : Staged} (history : Green.History workspace made)
    (rootMade : .node root ∈ made) (inTree : Node.InTree root node)
    (reachable : Staged.Reachable made node staged) :
    ∃ edited later, staged.apply workspace = .ok edited later ∧
      Text.splice? root.text node.range (Green.textOfSlots staged.slots) =
        some edited.treeRoot.text ∧
      edited.kind = node.kind ∧ edited.offset = node.offset ∧ edited.path = node.path ∧
      Green.Slot.allIdentical edited.green.slots staged.slots = true := by
  cases same : staged.unchanged with
  | true =>
      obtain ⟨slots_eq, run⟩ := reachable.apply_of_unchanged history inTree rootMade same
      refine ⟨node, _, run, ?_, rfl, rfl, rfl, by simp [slots_eq]⟩
      rw [slots_eq, ← Green.Node.text_eq]
      exact inTree.splice_self history rootMade
  | false =>
      have run := reachable.apply_of_changed history inTree rootMade same
      have sameNode := reachable.node_eq
      subst sameNode
      refine ⟨_, _, run, ?_, ?_, Node.regrown_offset _ _ _, Node.regrown_path _ _ _, ?_⟩
      · rw [Node.withSlots, ← inTree.splice_regrown history rootMade, Green.Node.text_eq]
        rfl
      · simp [Node.kind, Green.Node.assemble]
      · simp [Green.Node.assemble]

theorem Node.replaceWith_splices {node : Node} {green : Green.Node}
    (history : Green.History workspace made) (rootMade : .node root ∈ made)
    (inTree : Node.InTree root node) (greenMade : .node green ∈ made) :
    (node.FitsAbove green ∧ ∃ replaced later,
      node.replaceWith green workspace = .ok replaced later ∧
        Text.splice? root.text node.range green.text = some replaced.treeRoot.text ∧
        replaced.path = node.path ∧ replaced.green.identical green = true) ∨
    (¬ node.FitsAbove green ∧ ∃ reason,
      node.replaceWith green workspace = .error (.rejected reason) workspace) := by
  refine (inTree.replaceWith_run history rootMade greenMade).imp_left ?_
  rintro ⟨fits, replaced, later, run, ⟨rfl, rfl⟩ | rfl⟩
  · exact ⟨fits, _, later, run, inTree.splice_self history rootMade, rfl,
      by simp [Green.Node.identical]⟩
  · exact ⟨fits, _, later, run, inTree.splice_regrown history rootMade _ _,
      Node.regrown_path _ _ _, by simp [Green.Node.identical]⟩

theorem Token.replaceWith_splices {token : Token} {green : Green.Token}
    (history : Green.History workspace made) (rootMade : .node root ∈ made)
    (inTree : Token.InTree root token) (greenMade : .token green ∈ made) :
    (token.FitsAbove green ∧ ∃ replaced later,
      token.replaceWith green workspace = .ok replaced later ∧
        (∃ treeRoot, replaced.treeRoot? = some treeRoot ∧
          Text.splice? root.text token.range green.text = some treeRoot.text) ∧
        replaced.path = token.path ∧ replaced.green.identical green = true) ∨
    (¬ token.FitsAbove green ∧ ∃ reason,
      token.replaceWith green workspace = .error (.rejected reason) workspace) := by
  refine (inTree.replaceWith_run history rootMade greenMade).imp_left ?_
  rintro ⟨fits, replaced, later, run, ⟨rfl, rfl⟩ | rfl⟩
  · exact ⟨fits, _, later, run, inTree.splice_self history rootMade, rfl,
      by simp [Green.Token.identical]⟩
  · exact ⟨fits, _, later, run, inTree.splice_regrown history rootMade _ _,
      Token.regrown_path _ _ _, by simp [Green.Token.identical]⟩

/-- An edit changes the text of a tree in the range of the edited node or token only, and answers a
handle at the old place that sees the new contents. -/
theorem edits_splice_text (history : Green.History workspace made) (rootMade : .node root ∈ made) :
    (∀ {node : Node} {staged : Staged}, Node.InTree root node →
      Staged.Reachable made node staged →
      ∃ edited later, staged.apply workspace = .ok edited later ∧
        Text.splice? root.text node.range (Green.textOfSlots staged.slots) =
          some edited.treeRoot.text ∧
        edited.kind = node.kind ∧ edited.offset = node.offset ∧ edited.path = node.path ∧
        Green.Slot.allIdentical edited.green.slots staged.slots = true) ∧
    (∀ {node : Node} {green : Green.Node}, Node.InTree root node → .node green ∈ made →
      (node.FitsAbove green ∧ ∃ replaced later,
        node.replaceWith green workspace = .ok replaced later ∧
          Text.splice? root.text node.range green.text = some replaced.treeRoot.text ∧
          replaced.path = node.path ∧ replaced.green.identical green = true) ∨
      (¬ node.FitsAbove green ∧ ∃ reason,
        node.replaceWith green workspace = .error (.rejected reason) workspace)) ∧
    (∀ {token : Token} {green : Green.Token}, Token.InTree root token → .token green ∈ made →
      (token.FitsAbove green ∧ ∃ replaced later,
        token.replaceWith green workspace = .ok replaced later ∧
          (∃ treeRoot, replaced.treeRoot? = some treeRoot ∧
            Text.splice? root.text token.range green.text = some treeRoot.text) ∧
          replaced.path = token.path ∧ replaced.green.identical green = true) ∨
      (¬ token.FitsAbove green ∧ ∃ reason,
        token.replaceWith green workspace = .error (.rejected reason) workspace)) :=
  ⟨apply_splices history rootMade, Node.replaceWith_splices history rootMade,
    Token.replaceWith_splices history rootMade⟩

open Green.Sample (functionName functionToken history call_mem) in
theorem edits_splice_text_of_call :
    (∃ edited later,
      Staged.Sample.doubled.apply Green.Sample.workspace = .ok edited later ∧
        edited.treeRoot.text = "f(aa)") ∧
    (∃ replaced later,
      Sample.variableName.replaceWith functionName Green.Sample.workspace = .ok replaced later ∧
        replaced.treeRoot.text = "f(f)") ∧
    (∃ replaced later,
      Sample.argumentToken.replaceWith functionToken Green.Sample.workspace = .ok replaced later ∧
        ∃ treeRoot, replaced.treeRoot? = some treeRoot ∧ treeRoot.text = "f(f)") := by
  obtain ⟨onApply, onNode, onToken⟩ := edits_splice_text history call_mem
  refine ⟨?_, ?_, ?_⟩
  · obtain ⟨edited, later, run, spliced, _⟩ :=
      onApply Sample.arguments_inTree Staged.Sample.doubled_reachable
    exact ⟨edited, later, run, Option.some.inj (spliced.symm.trans (by rfl))⟩
  · have fits : Sample.variableName.FitsAbove functionName := by
      refine (Sample.variableName_inTree.fitsAbove_iff history call_mem).mpr ?_
      exact (Node.admitsInPlace_iff_checkSlots (by decide) _).mpr rfl
    obtain ⟨_, replaced, later, run, spliced, _⟩ | ⟨misfit, _⟩ :=
      @onNode _ functionName Sample.variableName_inTree (by simp [Green.Sample.made])
    · exact ⟨replaced, later, run, Option.some.inj (spliced.symm.trans (by rfl))⟩
    · exact absurd fits misfit
  · have fits : Sample.argumentToken.FitsAbove functionToken := by
      refine (Sample.argumentToken_inTree.fitsAbove_iff history call_mem).mpr ?_
      exact (Node.admitsInPlace_iff_checkSlots (by decide) _).mpr rfl
    obtain ⟨_, replaced, later, run, ⟨treeRoot, found, spliced⟩, _⟩ | ⟨misfit, _⟩ :=
      @onToken _ functionToken Sample.argumentToken_inTree (by simp [Green.Sample.made])
    · exact ⟨replaced, later, run, treeRoot, found, Option.some.inj (spliced.symm.trans (by rfl))⟩
    · exact absurd fits misfit

end Red

end SyntaxTree
