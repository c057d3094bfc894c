/-!
Texts put together from parts. Joining ropes copies nothing, and the text of a rope is written in
one go from left to right. Main statement: the text of two joined ropes is that of the first with
that of the second behind it.
-/

namespace SyntaxTree.Text

inductive Rope
  | piece (text : String)
  | joined (front back : Rope)

namespace Rope

instance : Coe String Rope := ⟨piece⟩

instance : Append Rope := ⟨joined⟩

/-- Goes on writing a rope behind a given text. -/
def appendTo : Rope → String → String
  | piece more, text => text ++ more
  | joined front back, text => back.appendTo (front.appendTo text)

def text (rope : Rope) : String := rope.appendTo ""

theorem appendTo_eq_append (rope : Rope) (text : String) :
    rope.appendTo text = text ++ rope.text := by
  induction rope generalizing text with
  | piece more => simp [Rope.text, appendTo]
  | joined front back frontHypothesis backHypothesis =>
      simp only [Rope.text, appendTo] at frontHypothesis backHypothesis ⊢
      rw [backHypothesis, frontHypothesis, backHypothesis (front.appendTo ""), String.append_assoc]

@[simp]
theorem text_piece (text : String) : (piece text).text = text := by
  simp [Rope.text, appendTo]

@[simp]
theorem text_append (front back : Rope) : (front ++ back).text = front.text ++ back.text :=
  appendTo_eq_append back _

/-- The ropes in order. -/
def concat (ropes : List Rope) : Rope := ropes.foldl (· ++ ·) (piece "")

/-- The ropes in order, with a separator between any two. -/
def separated (separator : String) : List Rope → Rope
  | [] => piece ""
  | first :: rest => first ++ concat (rest.map (piece separator ++ ·))

end Rope

end SyntaxTree.Text
