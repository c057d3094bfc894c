import SyntaxTree.Proofs.Positions

/-!
Tokens with trivia around them. A token keeps one text and the sizes of its pieces. Main statement:
the sizes cut the text back into the texts that the token was made of, and wherever the token stands
in a tree, its range without trivia is in order, inside its full range, and at the token proper.
-/

namespace SyntaxTree

namespace Text

/-- Cuts texts of the given sizes off the front of a text, one after the other. The second result is
what remains. -/
def cutAll? : List Nat → String → Option (List String × String)
  | [], text => some ([], text)
  | size :: sizes, text => do
    let (front, back) ← splitAt? text size
    let (fronts, rest) ← cutAll? sizes back
    return (front :: fronts, rest)

theorem cutAll?_join (texts : List String) (rest : String) :
    cutAll? (texts.map (·.utf8ByteSize)) (String.join texts ++ rest) = some (texts, rest) := by
  induction texts with
  | nil => simp [cutAll?]
  | cons text texts inductionHypothesis =>
      rw [List.map_cons, String.join_cons, String.append_assoc, cutAll?, splitAt?_append]
      simp [inductionHypothesis]

end Text

open Narrow

theorem Trivia.map_len_ofTexts (texts : List (TriviaKind × String)) :
    (Trivia.ofTexts texts).pieces.map (·.len) = texts.map (·.2.utf8ByteSize) := by
  simp [Trivia.ofTexts, Function.comp_def]

namespace Green.Token

/-- The sizes of all that a token is made of: its leading pieces, the token proper, and its trailing
pieces. -/
def pieceSizes (token : Token) : List Nat :=
  token.leading.pieces.map (·.len) ++
    (token.width - token.trailing.len - token.leading.len) :: token.trailing.pieces.map (·.len)

/-- The text between the trivia, with its two ends computed in 32 bits and in order. -/
def narrowTrimmedText? (token : Token) : Option String := do
  let start ← token.leading.narrowLen?
  let trailing ← token.trailing.narrowLen?
  let stop ← sub? (Narrow.sizeOf token.text) trailing
  let range ← TextRange.ordered? start stop
  Text.slice? token.text range.start range.stop

/-- A token whose text and trivia are those of given pieces. -/
structure Written (token : Token) (leading : List (TriviaKind × String)) (text : String)
    (trailing : List (TriviaKind × String)) : Prop where
  text_eq : token.text = String.join (leading.map (·.2)) ++ text ++ String.join (trailing.map (·.2))
  leading_eq : token.leading = .ofTexts leading
  trailing_eq : token.trailing = .ofTexts trailing

section Written

variable {token : Token} {leading trailing : List (TriviaKind × String)} {text : String}

theorem written_of_createWithTrivia {kind : TokenKind} {earlier later : Workspace}
    (made : createWithTrivia kind leading text trailing earlier = .ok token later) :
    token.Written leading text trailing := by
  cases made
  exact ⟨rfl, rfl, rfl⟩

theorem Written.width_eq (written : token.Written leading text trailing) :
    token.width = token.leading.len + text.utf8ByteSize + token.trailing.len := by
  rw [width, written.text_eq, written.leading_eq, written.trailing_eq, Trivia.len_ofTexts,
    Trivia.len_ofTexts, String.utf8ByteSize_append, String.utf8ByteSize_append]

/-- Any text that the token is a part of has the token proper behind the leading trivia. -/
theorem Written.slice?_eq (written : token.Written leading text trailing)
    {whole before after : String} (split : whole = before ++ token.text ++ after) :
    Text.slice? whole (before.utf8ByteSize + token.leading.len)
      (before.utf8ByteSize + token.width - token.trailing.len) = some text := by
  have around : whole = before ++ String.join (leading.map (·.2)) ++ text ++
      (String.join (trailing.map (·.2)) ++ after) := by
    simp only [split, written.text_eq, String.append_assoc]
  have found := Red.slice?_of_append around
  have start_eq : (before ++ String.join (leading.map (·.2))).utf8ByteSize =
      before.utf8ByteSize + token.leading.len := by
    rw [String.utf8ByteSize_append, written.leading_eq, Trivia.len_ofTexts]
  have stop_eq : before.utf8ByteSize + token.leading.len + text.utf8ByteSize =
      before.utf8ByteSize + token.width - token.trailing.len := by
    have width_eq := written.width_eq
    omega
  rwa [start_eq, stop_eq] at found

theorem Written.slice?_own (written : token.Written leading text trailing) :
    Text.slice? token.text token.leading.len (token.width - token.trailing.len) = some text := by
  have split : token.text = "" ++ token.text ++ "" := by simp
  simpa using written.slice?_eq split

theorem Written.cutAll?_pieceSizes (written : token.Written leading text trailing) :
    Text.cutAll? token.pieceSizes token.text =
      some (leading.map (·.2) ++ text :: trailing.map (·.2), "") := by
  have proper : token.width - token.trailing.len - token.leading.len = text.utf8ByteSize := by
    have width_eq := written.width_eq
    omega
  have sizes_eq : token.pieceSizes =
      (leading.map (·.2) ++ text :: trailing.map (·.2)).map (·.utf8ByteSize) := by
    rw [pieceSizes, proper, written.leading_eq, written.trailing_eq, Trivia.map_len_ofTexts,
      Trivia.map_len_ofTexts]
    simp [Function.comp_def]
  have joined : token.text =
      String.join (leading.map (·.2) ++ text :: trailing.map (·.2)) ++ "" := by
    rw [written.text_eq, String.append_empty, String.join_append, String.join_cons,
      String.append_assoc]
  rw [sizes_eq, joined]
  exact Text.cutAll?_join _ _

section Fits

variable (written : token.Written leading text trailing) (fits : token.width < limit)

include written fits

theorem Written.narrowLen?_eq :
    token.leading.narrowLen? = some token.leading.len ∧
      token.trailing.narrowLen? = some token.trailing.len := by
  have width_eq := written.width_eq
  exact ⟨token.leading.narrowLen?_eq (by omega), token.trailing.narrowLen?_eq (by omega)⟩

theorem Written.narrowTrimmedText?_eq : token.narrowTrimmedText? = some text := by
  have width_eq := written.width_eq
  obtain ⟨leading_eq, trailing_eq⟩ := written.narrowLen?_eq fits
  have size_eq : Narrow.sizeOf token.text = token.width := Nat.mod_eq_of_lt fits
  have stop_eq : sub? token.width token.trailing.len = some (token.width - token.trailing.len) :=
    sub?_eq (by omega)
  have ordered : TextRange.ordered? token.leading.len (token.width - token.trailing.len) =
      some ⟨token.leading.len, token.width - token.trailing.len⟩ :=
    if_pos (by omega)
  simp [narrowTrimmedText?, leading_eq, trailing_eq, size_eq, stop_eq, ordered, written.slice?_own]

end Fits

end Written

end Green.Token

namespace Red.Token

variable {leading trailing : List (TriviaKind × String)} {text : String} {token : Token}

/-- The range without trivia comes out wherever the full range does, and lies inside it. -/
theorem narrowTrimmedRange?_of_range (written : token.green.Written leading text trailing)
    (fits : token.green.width < limit) {range : TextRange}
    (found : token.narrowRange? = some range) :
    ∃ trimmed, token.narrowTrimmedRange? = some trimmed ∧
      range.start ≤ trimmed.start ∧ trimmed.start ≤ trimmed.stop ∧ trimmed.stop ≤ range.stop := by
  have size_eq : Narrow.sizeOf token.text = token.green.width := Nat.mod_eq_of_lt fits
  have width_eq := written.width_eq
  obtain ⟨leading_eq, trailing_eq⟩ := written.narrowLen?_eq fits
  -- How the offset came about does not matter: the end of the full range fits, and the other two
  -- positions are not behind it.
  obtain ⟨offset, -, spanned⟩ := Option.bind_eq_some_iff.mp found
  rw [size_eq, spanning?, add?] at spanned
  split at spanned
  · next inRange =>
      cases (if_pos (Nat.le_add_right _ _)).symm.trans spanned
      have start_eq : add? offset token.green.leading.len =
          some (offset + token.green.leading.len) :=
        add?_eq (by omega)
      have stop_eq : sub? (offset + token.green.width) token.green.trailing.len =
          some (offset + token.green.width - token.green.trailing.len) :=
        sub?_eq (by omega)
      have ordered : TextRange.ordered? (offset + token.green.leading.len)
          (offset + token.green.width - token.green.trailing.len) =
            some ⟨offset + token.green.leading.len,
              offset + token.green.width - token.green.trailing.len⟩ :=
        if_pos (by omega)
      refine ⟨⟨offset + token.green.leading.len,
        offset + token.green.width - token.green.trailing.len⟩, ?_, Nat.le_add_right _ _, ?_,
        Nat.sub_le _ _⟩
      · simp [narrowTrimmedRange?, found, leading_eq, trailing_eq, start_eq, stop_eq, ordered]
      · dsimp only
        omega
  · cases spanned

variable {workspace : Workspace} {made : List Green.Slot} {root : Green.Node}

theorem InTree.slice?_trimmedRange (written : token.green.Written leading text trailing)
    (inTree : Token.InTree root token) (history : Green.History workspace made)
    (rootMade : .node root ∈ made) :
    Text.slice? root.text token.trimmedRange.start token.trimmedRange.stop = some text := by
  have found := written.slice?_eq inTree.text_eq
  rwa [← inTree.offset_eq_size history rootMade] at found

end Red.Token

namespace Red

open Green.Token (createWithTrivia)

/-- A token made with trivia gives back all that it was made of, and it does so at any place of any
tree. -/
theorem trivia_round_trip (kind : TokenKind) (leading : List (TriviaKind × String)) (text : String)
    (trailing : List (TriviaKind × String)) :
    (∀ earlier, ∃ green later,
      createWithTrivia kind leading text trailing earlier = .ok green later) ∧
    ∀ {green earlier later}, createWithTrivia kind leading text trailing earlier = .ok green later →
      (green.kind = kind ∧
        green.text =
          String.join (leading.map (·.2)) ++ text ++ String.join (trailing.map (·.2)) ∧
        green.leading.pieces = leading.map (fun (kind, text) => ⟨kind, text.utf8ByteSize⟩) ∧
        green.trailing.pieces = trailing.map (fun (kind, text) => ⟨kind, text.utf8ByteSize⟩)) ∧
      (Text.slice? green.text green.leading.len (green.width - green.trailing.len) = some text ∧
        green.trimmedText = text ∧
        Text.cutAll? green.pieceSizes green.text =
          some (leading.map (·.2) ++ text :: trailing.map (·.2), "")) ∧
      (green.text.utf8ByteSize < limit →
        green.narrowTrimmedText? = some text ∧
        ∀ {token : Token} {range}, token.green = green → token.narrowRange? = some range →
          ∃ trimmed, token.narrowTrimmedRange? = some trimmed ∧ range.start ≤ trimmed.start ∧
            trimmed.start ≤ trimmed.stop ∧ trimmed.stop ≤ range.stop) ∧
      ∀ {workspace made root} {token : Token}, Green.History workspace made → .node root ∈ made →
        token.InTree root → token.green = green →
        (token.range.start ≤ token.trimmedRange.start ∧
          token.trimmedRange.start ≤ token.trimmedRange.stop ∧
          token.trimmedRange.stop ≤ token.range.stop) ∧
        Text.slice? root.text token.trimmedRange.start token.trimmedRange.stop = some text ∧
        (root.text.utf8ByteSize < limit →
          token.narrowRange? = some token.range ∧
          token.narrowTrimmedRange? = some token.trimmedRange) := by
  refine ⟨fun earlier => ⟨_, _, rfl⟩, ?_⟩
  intro green earlier later created
  have written := Green.Token.written_of_createWithTrivia created
  have sliced := written.slice?_own
  have kind_eq : green.kind = kind := by
    cases created
    rfl
  have trimmed_eq : green.trimmedText = text := by
    rw [Green.Token.trimmedText, sliced]
    rfl
  refine ⟨⟨kind_eq, written.text_eq, congrArg Trivia.pieces written.leading_eq,
    congrArg Trivia.pieces written.trailing_eq⟩,
    ⟨sliced, trimmed_eq, written.cutAll?_pieceSizes⟩, ?_, ?_⟩
  · intro fits
    refine ⟨written.narrowTrimmedText?_eq fits, ?_⟩
    rintro token range rfl found
    exact Token.narrowTrimmedRange?_of_range written fits found
  · rintro workspace made root token history rootMade inTree rfl
    refine ⟨⟨Nat.le_add_right _ _, ?_, Nat.sub_le _ _⟩,
      Token.InTree.slice?_trimmedRange written inTree history rootMade, ?_⟩
    · have width_eq := written.width_eq
      show token.offset + token.green.leading.len ≤
        token.offset + token.green.width - token.green.trailing.len
      omega
    · intro fits
      exact ⟨inTree.narrowRange?_eq history rootMade fits,
        inTree.narrowTrimmedRange?_eq history rootMade fits⟩

/-! A name with trivia on both sides, one of the pieces empty. -/

namespace Sample

def leadingPieces : List (TriviaKind × String) := [(.singleLineComment, "//é"), (.newline, "\n")]

def trailingPieces : List (TriviaKind × String) := [(.whitespace, ""), (.whitespace, " ")]

def spacedToken : Green.Token where
  stamp := ⟨0⟩
  kind := .identifier
  text := "//é\nx "
  leading := .ofTexts leadingPieces
  trailing := .ofTexts trailingPieces
  remarks := []
  missing := false

def spacedName : Green.Node := .assemble ⟨1⟩ .simpleNameReference [.token spacedToken] []

theorem spacedToken_created :
    createWithTrivia TokenKind.identifier leadingPieces "x" trailingPieces .empty =
      .ok spacedToken ⟨1, #[]⟩ := rfl

theorem spacedName_history :
    Green.History ⟨2, #[]⟩ [.node spacedName, .token spacedToken] := by
  have tokenMade : Green.History ⟨1, #[]⟩ [.token spacedToken] :=
    @Green.History.token _ _ _ (.withTrivia TokenKind.identifier leadingPieces "x" trailingPieces) _
      .start spacedToken_created
  exact tokenMade.node (by simp [Green.Available]) (Green.Node.create_run rfl [] _)

end Sample

open Sample in
theorem trivia_round_trip_of_spaced :
    spacedToken.narrowTrimmedText? = some "x" ∧
      Text.cutAll? [4, 1, 1, 0, 1] spacedToken.text = some (["//é", "\n", "x", "", " "], "") ∧
      Text.slice? spacedName.text 5 6 = some "x" ∧
      (Token.held spacedToken 0 0 (.root spacedName)).narrowTrimmedRange? = some ⟨5, 6⟩ := by
  obtain ⟨-, all⟩ := trivia_round_trip .identifier leadingPieces "x" trailingPieces
  obtain ⟨-, ⟨-, -, cut⟩, narrow, placed⟩ := all spacedToken_created
  have fits : spacedToken.text.utf8ByteSize < limit := by decide
  have inTree : Token.InTree spacedName (.held spacedToken 0 0 (.root spacedName)) :=
    Token.InTree.held_iff.mpr ⟨.root, rfl, rfl⟩
  obtain ⟨-, sliced, trimmed⟩ := placed spacedName_history List.mem_cons_self inTree rfl
  have rootFits : spacedName.text.utf8ByteSize < limit := by decide
  exact ⟨(narrow fits).1, cut, sliced, (trimmed rootFits).2⟩

end Red

end SyntaxTree
