import LocationPath.Proofs.Grammar.Faults
import LocationPath.Proofs.Grammar.Move
import LocationPath.Proofs.Lexing.Tokenized

/-! # Layout between tokens

More layout may be put at every place of a text that is not inside a token. The tokens stay the same
and go to the places that their characters have gone to; and so does all that the parser makes of
them, a tree as well as the token that it stops at.

Main definitions: `Padding`, `Padding.pad`, `Padding.starts` and `Padding.stops` (where characters
and ends go) and `Padding.Spares` (nothing is put inside a token). Main results: `Tokenized.pad` and
`Node.parse_pad`. -/

namespace LocationPath

/-- Layout to be put into a text. -/
structure Padding where
  /-- What is put in front of the character at a position, or at the end of the text. -/
  before : Nat → Text
  /-- It is layout. -/
  layout : ∀ position, (before position).all isLayout = true

namespace Padding

variable (padding : Padding)

/-- A text that starts at a position, with the layout put into it. -/
def padFrom (position : Nat) : Text → Text
  | [] => padding.before position
  | c :: rest => padding.before position ++ c :: padFrom (position + 1) rest

/-- A text with the layout put into it. -/
def pad (text : Text) : Text := padding.padFrom 0 text

/-- The number of characters that are put in front of the characters before a position. -/
def width : Nat → Nat
  | 0 => 0
  | position + 1 => width position + (padding.before position).length

/-- Where the character at a position goes, which is behind what is put in front of it. -/
def starts (position : Nat) : Nat := position + padding.width (position + 1)

/-- Where the end of what stops at a position goes, which is before what is put there. -/
def stops (position : Nat) : Nat := position + padding.width position

/-- Nothing is put inside of tokens. -/
def Spares (tokens : List Token) : Prop :=
  ∀ token ∈ tokens, ∀ position < token.span.stop, token.span.start < position →
    padding.before position = []

instance (tokens : List Token) : Decidable (padding.Spares tokens) :=
  inferInstanceAs (Decidable (∀ token ∈ tokens, ∀ position < token.span.stop,
    token.span.start < position → padding.before position = []))

/-- The same layout at some places. -/
def ofPlaces (places : List Nat) (gap : Text) (layout : gap.all isLayout = true) : Padding where
  before position := if position ∈ places then gap else []
  layout position := by
    split
    · exact layout
    · rfl

variable {padding}

/-- Behind what is put at a position comes its character. -/
theorem starts_eq (position : Nat) :
    padding.starts position = padding.stops position + (padding.before position).length := by
  rw [starts, stops, width, Nat.add_assoc]

/-! ## Padded texts -/

/-- Padded layout is layout. -/
theorem all_isLayout_padFrom (position : Nat) {gap : Text} (layout : gap.all isLayout = true) :
    (padding.padFrom position gap).all isLayout = true := by
  induction gap generalizing position with
  | nil => exact padding.layout position
  | cons c gap ih =>
    rw [List.all_cons, Bool.and_eq_true] at layout
    rw [padFrom, List.all_append, List.all_cons, padding.layout, layout.1, ih _ layout.2]
    rfl

/-- A text behind another one is padded behind it; what comes out of layout in front is layout. -/
theorem exists_padFrom_append (position : Nat) (front text : Text) : ∃ padded : Text,
    padding.padFrom position (front ++ text) =
        padded ++ padding.padFrom (position + front.length) text ∧
      padding.stops position + padded.length = padding.stops (position + front.length) ∧
      (front.all isLayout = true → padded.all isLayout = true) := by
  induction front generalizing position with
  | nil => exact ⟨[], rfl, rfl, fun _ => rfl⟩
  | cons c front ih =>
    obtain ⟨padded, eq, length, layout⟩ := ih (position + 1)
    rw [List.length_cons, Nat.add_comm front.length, ← Nat.add_assoc, ← length]
    refine ⟨padding.before position ++ c :: padded, ?_, ?_, fun all => ?_⟩
    · rw [List.cons_append, padFrom, eq]
      simp
    · simp only [stops, width, List.length_append, List.length_cons]
      omega
    · rw [List.all_cons, Bool.and_eq_true] at all
      rw [List.all_append, List.all_cons, padding.layout, all.1, layout all.2]
      rfl

/-- The characters of a text stand in the padded text where they have gone to. -/
theorem getElem?_pad (text : Text) {i : Nat} (lt : i < text.length) :
    (padding.pad text)[padding.starts i]? = text[i]? := by
  obtain ⟨padded, eq, length, -⟩ := padding.exists_padFrom_append 0 (text.take i) (text.drop i)
  rw [List.take_append_drop, List.length_take_of_le (Nat.le_of_lt lt), Nat.zero_add] at eq
  rw [List.length_take_of_le (Nat.le_of_lt lt), Nat.zero_add] at length
  have index : padding.starts i = (padded ++ padding.before i).length := by
    rw [starts_eq, ← length, List.length_append]
    simp [stops, width]
  rw [pad, eq, List.drop_eq_getElem_cons lt, padFrom, ← List.append_assoc, index,
    List.getElem?_append_right (Nat.le_refl _), Nat.sub_self, List.getElem?_eq_getElem lt]
  rfl

/-- Where nothing is put into the start of a text, only the rest is padded. -/
theorem padFrom_append_of_empty (position : Nat) (run text : Text)
    (empty : ∀ i < run.length, padding.before (position + i) = []) :
    padding.padFrom position (run ++ text) =
        run ++ padding.padFrom (position + run.length) text ∧
      padding.width (position + run.length) = padding.width position := by
  induction run generalizing position with
  | nil => exact ⟨rfl, rfl⟩
  | cons c run ih =>
    have here : padding.before position = [] := empty 0 (by simp)
    obtain ⟨eq, width_eq⟩ := ih (position + 1) fun i lt => by
      rw [Nat.add_assoc, Nat.add_comm 1]
      exact empty (i + 1) (by simpa using lt)
    rw [List.length_cons, Nat.add_comm run.length, ← Nat.add_assoc, width_eq, width, here]
    exact ⟨by rw [List.cons_append, padFrom, here, eq]; rfl, by simp⟩

/-- Padding does not matter to whether a parenthesis is opened. -/
theorem opensParen_padFrom (position : Nat) (text : Text) :
    opensParen (padding.padFrom position text) = opensParen text := by
  induction text generalizing position with
  | nil => exact opensParen_of_layout (padding.layout position)
  | cons c text ih =>
    rw [padFrom, opensParen_append_layout (padding.layout position)]
    cases layout : isLayout c with
    | false => rw [opensParen_cons layout, opensParen_cons layout]
    | true =>
      -- Layout is skipped, so what is put behind it does not matter either.
      have gap : [c].all isLayout = true := by simpa using layout
      have skipped := ih (position + 1)
      rw [← opensParen_append_layout gap, ← opensParen_append_layout gap text] at skipped
      exact skipped

/-- A padded text starts with layout or as the text does. -/
theorem head?_padFrom (position : Nat) (text : Text) :
    (∃ c, (padding.padFrom position text).head? = some c ∧ isLayout c = true) ∨
      (padding.padFrom position text).head? = text.head? := by
  cases before : padding.before position with
  | nil =>
    right
    cases text <;> simp [padFrom, before]
  | cons c more =>
    left
    have layout := padding.layout position
    rw [before, List.all_cons, Bool.and_eq_true] at layout
    exact ⟨c, by cases text <;> simp [padFrom, before], layout.1⟩

end Padding

/-- A lexeme stays as it is in front of layout, if a parenthesis is opened behind it as before. -/
theorem Lexeme.StaysBefore.of_isLayout {afterOperand : Bool} {lexeme : Lexeme} {first d : Char}
    {more behind behind' : Text} (h : lexeme.StaysBefore first behind)
    (spelled : lexeme.Spelled afterOperand first more) (head : behind'.head? = some d)
    (layout : isLayout d = true) (opens : opensParen behind' = opensParen behind) :
    lexeme.StaysBefore first behind' := by
  have of_head : ∀ {p : Char → Prop}, p d → ∀ c ∈ behind'.head?, p c := by
    intro p holds c mem
    rw [head] at mem
    exact Option.mem_some.1 mem ▸ holds
  have no_name : isNameChar d = false := by
    simp only [isLayout, Bool.or_eq_true, beq_iff_eq, or_assoc] at layout
    rcases layout with rfl | rfl | rfl | rfl <;> decide +kernel
  have other : ∀ c, isLayout c = false → behind'.head? ≠ some c := by
    intro c no_layout eq
    rw [head] at eq
    rw [← Option.some.inj eq, layout] at no_layout
    contradiction
  -- Layout goes on with no lexeme; only names look behind it, for a parenthesis.
  cases lexeme with
  | literal => exact other first spelled.not_isLayout
  | float => exact of_head (LocationPath.of_isLayout layout).1
  | integer | dot =>
    refine of_head ⟨(LocationPath.of_isLayout layout).1, ?_⟩
    rintro rfl
    contradiction
  | name => exact ⟨of_head no_name, fun mem => opens.trans (h.2 mem)⟩
  | nodeType => exact ⟨of_head no_name, opens.trans h.2⟩
  | word => exact of_head no_name
  | slash | colon | less | greater => exact other _ rfl
  | _ => trivial

/-- **The tokens of a padded text are the moved tokens of the text**, if none has been broken up. -/
theorem Tokenized.pad {afterOperand : Bool} {start : Nat} {text : Text} {tokens : List Token}
    {padding : Padding} (h : Tokenized afterOperand start text tokens)
    (spares : padding.Spares tokens) :
    Tokenized afterOperand (padding.stops start) (padding.padFrom start text)
      (tokens.map (Token.move padding.starts padding.stops)) := by
  induction h with
  | layout layout => exact .layout (padding.all_isLayout_padFrom _ layout)
  | @token afterOperand start gap lexeme c more behind span tokens layout spelled stays starts stops
      _ ih =>
    obtain ⟨padded, eq, length, padded_layout⟩ :=
      padding.exists_padFrom_append start gap (c :: (more ++ behind))
    have empty : ∀ i < more.length, padding.before (span.start + 1 + i) = [] := fun i lt =>
      spares ⟨lexeme, span⟩ (by simp) _ (by dsimp only; omega) (by dsimp only; omega)
    obtain ⟨rest_eq, width_eq⟩ := padding.padFrom_append_of_empty (span.start + 1) more behind empty
    rw [← starts] at length eq
    rw [← stops] at rest_eq width_eq
    rw [eq, Padding.padFrom, rest_eq, ← List.append_assoc, List.map_cons]
    -- All that is put in front of the first character is a longer gap, and the rest of the token
    -- stays together.
    refine .token ?_ spelled ?_ ?_ ?_ (ih fun token mem => spares token (List.mem_cons_of_mem _ mem))
    · rw [List.all_append, padded_layout layout, padding.layout]
      rfl
    · obtain ⟨d, head, d_layout⟩ | head := padding.head?_padFrom span.stop behind
      · exact stays.of_isLayout spelled head d_layout (padding.opensParen_padFrom _ _)
      · exact stays.congr head (padding.opensParen_padFrom _ _)
    · show padding.starts span.start = _
      rw [Padding.starts_eq, ← length, List.length_append, Nat.add_assoc]
    · show padding.stops span.stop = padding.starts span.start + 1 + more.length
      rw [Padding.stops, Padding.starts, width_eq]
      omega

/-- The tokens of a padded text are read to its end. -/
theorem Lexing.ofText_pad {text : Text} {tokens : List Token} {padding : Padding}
    (read : ofText text = ⟨tokens, .finished⟩) (spares : padding.Spares tokens) :
    ofText (padding.pad text) =
      ⟨tokens.map (Token.move padding.starts padding.stops), .finished⟩ :=
  tokenized_iff.1 ((tokenized_iff.2 read).pad spares)

/-! ## Moved tokens -/

/-- What begins an expression begins one with fewer tokens too. -/
theorem BeginsExpression.of_prefix {tokens tokens' : List Token} (h : BeginsExpression tokens')
    (front : Token.classes tokens <+: Token.classes tokens') : BeginsExpression tokens := by
  obtain ⟨derivation, begins⟩ := h
  exact ⟨derivation, front.trans begins⟩

/-- Moved tokens have the same classes. -/
theorem Token.classes_move (starts stops : Nat → Nat) (tokens : List Token) :
    classes (tokens.map (move starts stops)) = classes tokens := by
  rw [classes, List.map_map]
  rfl

namespace Node

/-- What begins an expression goes no further than up to the error. -/
theorem length_le_of_begins {before rest other : List Token}
    (h : ofTokens (before ++ rest) = .error rest) (begins : BeginsExpression other)
    (front : Token.classes other <+: Token.classes (before ++ rest)) :
    other.length ≤ before.length := by
  by_contra longer
  cases rest with
  | nil =>
    have le := front.length_le
    simp only [Token.classes, List.length_map, List.append_nil] at le
    exact longer le
  | cons token after =>
    -- The token that is reported would be among what begins an expression.
    have taken : Token.classes (before ++ [token]) <+: Token.classes (before ++ token :: after) :=
      ⟨Token.classes after, by simp [Token.classes]⟩
    refine not_begins_of_error h (begins.of_prefix ?_)
    refine List.prefix_of_prefix_length_le taken front ?_
    simp only [Token.classes, List.length_map, List.length_append, List.length_singleton]
    omega

/-- **The parser does not look at places**: it finds the moved tree, or it stops at the moved
token. -/
theorem ofTokens_move (starts stops : Nat → Nat) (tokens : List Token) :
    (∃ tree, ofTokens tokens = .ok tree ∧
        ofTokens (tokens.map (Token.move starts stops)) =
          .ok (tree.mapSpan (Span.move starts stops))) ∨
      ∃ before rest, tokens = before ++ rest ∧ ofTokens tokens = .error rest ∧
        ofTokens (tokens.map (Token.move starts stops)) =
          .error (rest.map (Token.move starts stops)) := by
  cases found : ofTokens tokens with
  | ok tree =>
    obtain ⟨derivation, rfl, rfl⟩ := ofTokens_eq_ok_iff.1 found
    exact .inl ⟨_, rfl, ofTokens_eq_ok_iff.2 ⟨derivation.move starts stops,
      derivation.tokens_move starts stops, derivation.value_move_level starts stops⟩⟩
  | error rest =>
    obtain ⟨before, rfl, begins⟩ := exists_begins_of_error found
    refine .inr ⟨before, rest, rfl, rfl, ?_⟩
    cases moved : ofTokens ((before ++ rest).map (Token.move starts stops)) with
    | ok tree =>
      obtain ⟨derivation, classes_eq⟩ := isExpression_iff.2 ⟨tree, moved⟩
      rw [Token.classes_move] at classes_eq
      obtain ⟨other, accepted⟩ := isExpression_iff.1 ⟨derivation, classes_eq⟩
      rw [found] at accepted
      contradiction
    | error rest' =>
      -- What stands in front of either error begins an expression, so neither can be the later one.
      obtain ⟨before', eq, begins'⟩ := exists_begins_of_error moved
      have classes_eq := Token.classes_move starts stops (before ++ rest)
      rw [eq] at moved classes_eq
      have le := length_le_of_begins found begins'
        (classes_eq ▸ ⟨Token.classes rest', by simp [Token.classes]⟩)
      have ge := length_le_of_begins moved begins
        (classes_eq.symm ▸ ⟨Token.classes rest, by simp [Token.classes]⟩)
      rw [List.map_append] at eq
      obtain ⟨-, rfl⟩ := List.append_inj eq (by rw [List.length_map]; omega)
      rfl

/-- **Layout between tokens does not matter.** With more of it the tokens are the same in other
places, and so is the tree; or else both texts end early, or both are malformed at the same token. -/
theorem parse_pad {text : Text} {tokens : List Token} {padding : Padding}
    (read : Lexing.ofText text = ⟨tokens, .finished⟩) (spares : padding.Spares tokens) :
    Lexing.ofText (padding.pad text) =
        ⟨tokens.map (Token.move padding.starts padding.stops), .finished⟩ ∧
      ((∃ tree, parse text = .ok tree ∧
          parse (padding.pad text) =
            .ok (tree.mapSpan (Span.move padding.starts padding.stops))) ∨
        (parse text = .error (.malformed ⟨.unexpectedEnd, some text, none⟩) ∧
          parse (padding.pad text) =
            .error (.malformed ⟨.unexpectedEnd, some (padding.pad text), none⟩)) ∨
        ∃ token ∈ tokens,
          parse text = .error (.malformed
            ⟨.unexpected token.lexeme.value, some text, some token.span.start⟩) ∧
          parse (padding.pad text) = .error (.malformed
            ⟨.unexpected token.lexeme.value, some (padding.pad text),
              some (padding.starts token.span.start)⟩)) := by
  have padded := Lexing.ofText_pad read spares
  refine ⟨padded, ?_⟩
  obtain ⟨tree, found, moved⟩ | ⟨before, rest, tokens_eq, found, moved⟩ :=
    ofTokens_move padding.starts padding.stops tokens
  · exact .inl ⟨tree, by rw [parse_eq_ok_iff, read]; exact ⟨rfl, found⟩,
      by rw [parse_eq_ok_iff, padded]; exact ⟨rfl, moved⟩⟩
  -- Both readings stop in front of the same tokens, of which only the places differ.
  · right
    simp only [parse, read, padded, found, moved]
    cases rest with
    | nil => exact .inl ⟨rfl, rfl⟩
    | cons token after => exact .inr ⟨token, by simp [tokens_eq], rfl, rfl⟩

/-- A line break may stand around each token, but not inside of literals or names. -/
theorem parse_pad_of_breaks : ∃ (padding : Padding) (tree : Node),
    padding.pad "a/text()[.='it''s' and 2]".toList =
      "\n a\n /\n text\n ()[\n .=\n 'it''s' and\n  2]\n ".toList ∧
    parse "a/text()[.='it''s' and 2]".toList = .ok tree ∧
    parse "\n a\n /\n text\n ()[\n .=\n 'it''s' and\n  2]\n ".toList =
      .ok (tree.mapSpan (Span.move padding.starts padding.stops)) := by
  have read : Lexing.ofText "a/text()[.='it''s' and 2]".toList =
      ⟨(Lexing.ofText "a/text()[.='it''s' and 2]".toList).tokens, .finished⟩ := by
    decide +kernel
  have accepted : (parse "a/text()[.='it''s' and 2]".toList).isOk = true := by decide +kernel
  have padded : (Padding.ofPlaces [0, 1, 2, 6, 9, 11, 22, 25] "\n ".toList rfl).pad
      "a/text()[.='it''s' and 2]".toList =
        "\n a\n /\n text\n ()[\n .=\n 'it''s' and\n  2]\n ".toList := by decide +kernel
  obtain ⟨-, ⟨tree, parsed, moved⟩ | ⟨failed, -⟩ | ⟨token, -, failed, -⟩⟩ :=
    @parse_pad _ _ (.ofPlaces [0, 1, 2, 6, 9, 11, 22, 25] "\n ".toList rfl) read
      (by decide +kernel)
  · exact ⟨_, tree, padded, parsed, padded ▸ moved⟩
  · rw [failed] at accepted
    contradiction
  · rw [failed] at accepted
    contradiction

end Node

end LocationPath
