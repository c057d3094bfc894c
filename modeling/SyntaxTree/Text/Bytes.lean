/-!
Cutting text at byte positions. A cut exists only between characters, so every cut is given with
the two texts on its sides.
-/

namespace SyntaxTree.Text

/-- Cuts a list of characters after `count` bytes of its encoding. There is no cut inside a
character or past the end. -/
def splitBytes : List Char → Nat → Option (List Char × List Char)
  | characters, 0 => some ([], characters)
  | [], _ + 1 => none
  | character :: rest, count + 1 =>
    if character.utf8Size ≤ count + 1 then
      (splitBytes rest (count + 1 - character.utf8Size)).map
        fun (front, back) => (character :: front, back)
    else
      none

/-- The texts before and after byte position `count`. -/
def splitAt? (text : String) (count : Nat) : Option (String × String) :=
  (splitBytes text.toList count).map fun (front, back) => (String.ofList front, String.ofList back)

/-- The text between two byte positions. -/
def slice? (text : String) (start stop : Nat) : Option String := do
  let (_, rest) ← splitAt? text start
  let (middle, _) ← splitAt? rest (stop - start)
  return middle

/-- There is a cut wherever two texts meet. -/
theorem splitBytes_append (front back : List Char) :
    splitBytes (front ++ back) (String.ofList front).utf8ByteSize = some (front, back) := by
  induction front with
  | nil => cases back <;> rfl
  | cons character front inductionHypothesis =>
      have positive := character.utf8Size_pos
      have size : (String.ofList (character :: front)).utf8ByteSize =
          (String.ofList front).utf8ByteSize + (character.utf8Size - 1) + 1 := by
        rw [← List.singleton_append, String.ofList_append, String.utf8ByteSize_append]
        simp
        omega
      have left : (String.ofList front).utf8ByteSize + (character.utf8Size - 1) + 1 -
          character.utf8Size = (String.ofList front).utf8ByteSize := by omega
      rw [size, List.cons_append, splitBytes, if_pos (by omega), left, inductionHypothesis]
      rfl

theorem splitAt?_append (front back : String) :
    splitAt? (front ++ back) front.utf8ByteSize = some (front, back) := by
  have found := splitBytes_append front.toList back.toList
  rw [String.ofList_toList] at found
  rw [splitAt?, String.toList_append, found]
  simp

end SyntaxTree.Text
