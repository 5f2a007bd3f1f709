import LocationPath.Proofs.Lexing.Spelling
import LocationPath.Proofs.Placement.Order

/-! # Texts as tokens with layout between them

A text that is read to its end is a list of spelled lexemes with layout between them, each of which
stays as it is in front of what follows. In this form texts can be moved, cut and put together.

Main definitions: `Tokenized`, `Token.shift` and `Lexeme.meets` (a character may follow a lexeme).
Main results: `tokenized_iff`, `Tokenized.shift`, `Tokenized.take`, `Tokenized.drop` and
`Tokenized.append`. -/

namespace LocationPath

/-- A text that starts at a position, after an operand or elsewhere, is some tokens with layout
between them. -/
inductive Tokenized : Bool → Nat → Text → List Token → Prop where
  | layout {afterOperand : Bool} {start : Nat} {gap : Text} (layout : gap.all isLayout = true) :
    Tokenized afterOperand start gap []
  | token {afterOperand : Bool} {start : Nat} {gap : Text} {lexeme : Lexeme} {c : Char}
    {more behind : Text} {span : Span} {tokens : List Token} (layout : gap.all isLayout = true)
    (spelled : lexeme.Spelled afterOperand c more) (stays : lexeme.StaysBefore c behind)
    (starts : span.start = start + gap.length) (stops : span.stop = span.start + 1 + more.length)
    (rest : Tokenized lexeme.endsOperand span.stop behind tokens) :
    Tokenized afterOperand start (gap ++ c :: (more ++ behind)) (⟨lexeme, span⟩ :: tokens)

/-! ## Reading -/

/-- Layout starts no numbers or names. -/
theorem of_isLayout {c : Char} (h : isLayout c = true) :
    isDigit c = false ∧ isNameStart c = false := by
  simp only [isLayout, Bool.or_eq_true, beq_iff_eq, or_assoc] at h
  rcases h with rfl | rfl | rfl | rfl <;> decide +kernel

/-- No lexeme starts with layout. -/
theorem Lexeme.Spelled.not_isLayout {afterOperand : Bool} {lexeme : Lexeme} {c : Char}
    {more : Text} (h : lexeme.Spelled afterOperand c more) : isLayout c = false := by
  cases h with
  | literal quotation => obtain rfl | rfl := quotation <;> rfl
  | fraction | times | star => rfl
  | symbol mem => exact (Lexeme.of_mem_symbols _ mem).2.2.2.2.2
  | pointed first | integer first =>
    cases layout : isLayout c with
    | false => rfl
    | true =>
      rw [(of_isLayout layout).1] at first
      contradiction
  | name first | nodeType first | word first =>
    cases layout : isLayout c with
    | false => rfl
    | true =>
      rw [(of_isLayout layout).2] at first
      contradiction

/-- Layout in front of a text is skipped. -/
theorem Lexing.ofTextFrom_append_layout (afterOperand : Bool) (start : Nat) {gap : Text}
    (layout : gap.all isLayout = true) (text : Text) :
    ofTextFrom afterOperand start (gap ++ text) =
      ofTextFrom afterOperand (start + gap.length) text := by
  induction gap generalizing start with
  | nil => rfl
  | cons c gap ih =>
    rw [List.all_cons, Bool.and_eq_true] at layout
    rw [List.cons_append, ofTextFrom, if_pos layout.1, ih (start + 1) layout.2, List.length_cons,
      Nat.add_assoc, Nat.add_comm 1]

/-- A lexeme in front of a text that leaves it as it is is the first token. -/
theorem Lexing.ofTextFrom_of_spelled {afterOperand : Bool} (start : Nat) {lexeme : Lexeme}
    {c : Char} {more behind : Text} (spelled : lexeme.Spelled afterOperand c more)
    (stays : lexeme.StaysBefore c behind) :
    ofTextFrom afterOperand start (c :: (more ++ behind)) =
      let later := ofTextFrom lexeme.endsOperand (start + 1 + more.length) behind
      ⟨⟨lexeme, ⟨start, start + 1 + more.length⟩⟩ :: later.tokens, later.ending⟩ := by
  rw [ofTextFrom, if_neg (by simp [spelled.not_isLayout]), Scan.next_of_spelled spelled stays]
  dsimp only
  rw [List.drop_left]

/-- Layout in front of a text changes no token. -/
theorem Tokenized.cons_layout {afterOperand : Bool} {start : Nat} {text : Text}
    {tokens : List Token} {c : Char} (layout : isLayout c = true)
    (h : Tokenized afterOperand (start + 1) text tokens) :
    Tokenized afterOperand start (c :: text) tokens := by
  cases h with
  | layout gap => exact .layout (by simp [layout, gap])
  | @token _ _ gap _ _ _ _ _ _ gap_layout spelled stays starts stops rest =>
    have longer : (c :: gap).all isLayout = true := by simp [layout, gap_layout]
    refine .token longer spelled stays ?_ stops rest
    rw [starts, List.length_cons]
    omega

/-- **A text is tokens with layout between them exactly if these are read and nothing is left.** -/
theorem tokenized_iff {afterOperand : Bool} {start : Nat} {text : Text} {tokens : List Token} :
    Tokenized afterOperand start text tokens ↔
      Lexing.ofTextFrom afterOperand start text = ⟨tokens, .finished⟩ := by
  constructor
  · intro h
    induction h with
    | @layout afterOperand start gap layout =>
      have skipped := Lexing.ofTextFrom_append_layout afterOperand start layout []
      rw [List.append_nil] at skipped
      rw [skipped, Lexing.ofTextFrom]
    | @token afterOperand start gap lexeme c more behind span tokens layout spelled stays starts
        stops _ ih =>
      rw [Lexing.ofTextFrom_append_layout _ _ layout, Lexing.ofTextFrom_of_spelled _ spelled stays,
        ← starts, ← stops, ih]
  · intro h
    fun_induction Lexing.ofTextFrom afterOperand start text generalizing tokens with
    | case1 =>
      obtain ⟨rfl, -⟩ := Lexing.mk.inj h
      exact .layout rfl
    | case2 afterOperand start c rest layout ih => exact (ih h).cons_layout layout
    | case3 afterOperand start c rest _ lexeme used next stop later =>
      rename_i ih
      obtain ⟨rfl, finished⟩ := Lexing.mk.inj h
      obtain ⟨more, behind, rfl, rfl, spelled, stays⟩ := Scan.exists_spelled_of_next next
      rw [List.drop_left] at ih
      have later_eq : later = Lexing.ofTextFrom lexeme.endsOperand stop behind := by
        show Lexing.ofTextFrom lexeme.endsOperand stop ((more ++ behind).drop more.length) = _
        rw [List.drop_left]
      have tokenized := @ih later.tokens (by rw [← later_eq, ← finished])
      obtain stays | ⟨after, rfl, unknown⟩ := stays
      · exact .token List.all_nil spelled stays rfl rfl tokenized
      · -- Behind a literal its own mark is left, where no token starts.
        rw [later_eq, Lexing.ofTextFrom, if_neg (by simp [spelled.not_isLayout]),
          unknown] at finished
        simp at finished
    | case4 => simp at h
    | case5 => simp at h

/-- A text without tokens is layout. -/
theorem Tokenized.layout_of_nil {afterOperand : Bool} {start : Nat} {text : Text}
    (h : Tokenized afterOperand start text []) : text.all isLayout = true := by
  cases h with
  | layout layout => exact layout

/-- The tokens of a text start no earlier than the text and stop no later. -/
theorem Tokenized.within {afterOperand : Bool} {start : Nat} {text : Text} {tokens : List Token}
    (h : Tokenized afterOperand start text tokens) :
    ∀ token ∈ tokens, start ≤ token.span.start ∧ token.span.stop ≤ start + text.length := by
  induction h with
  | layout => simp
  | token layout spelled stays starts stops _ ih =>
    intro token mem
    simp only [List.length_append, List.length_cons]
    obtain rfl | mem := List.mem_cons.1 mem
    · dsimp only
      omega
    · have := ih token mem
      omega

/-- The tokens of a text are in order. -/
theorem Tokenized.inOrder {afterOperand : Bool} {start : Nat} {text : Text} {tokens : List Token}
    (h : Tokenized afterOperand start text tokens) : Token.InOrder tokens := by
  have order := (Lexing.inOrder_ofTextFrom afterOperand start text).1
  rwa [tokenized_iff.1 h] at order

/-! ## Moving -/

/-- A span in a text that is moved from one position to another. -/
def Span.shift (old new : Nat) (span : Span) : Span :=
  ⟨span.start + new - old, span.stop + new - old⟩

/-- A token in a text that is moved from one position to another. -/
def Token.shift (old new : Nat) (token : Token) : Token :=
  ⟨token.lexeme, token.span.shift old new⟩

/-- The tokens of a moved text are the moved tokens of the text. -/
theorem Tokenized.shift {afterOperand : Bool} {start : Nat} {text : Text} {tokens : List Token}
    (h : Tokenized afterOperand start text tokens) (old new : Nat) (le : old ≤ start) :
    Tokenized afterOperand (start + new - old) text (tokens.map (Token.shift old new)) := by
  induction h with
  | layout layout => exact .layout layout
  | @token afterOperand start gap lexeme c more behind span tokens layout spelled stays starts
      stops _ ih =>
    refine .token layout spelled stays ?_ ?_ (ih (by omega))
    · show span.start + new - old = start + new - old + gap.length
      omega
    · show span.stop + new - old = span.start + new - old + 1 + more.length
      omega

/-- A text that does not start with an operator word or a star as an operator may stand after an
operand and elsewhere. -/
theorem Tokenized.elsewhere {afterOperand : Bool} {start : Nat} {text : Text} {token : Token}
    {tokens : List Token} (h : Tokenized afterOperand start text (token :: tokens))
    (no_operator : token.lexeme ≠ .times ∧ ∀ word, token.lexeme ≠ .word word) :
    Tokenized false start text (token :: tokens) := by
  cases h with
  | @token _ _ _ lexeme c more _ _ _ layout spelled stays starts stops rest =>
    refine .token layout ?_ stays starts stops rest
    cases spelled with
    | literal quotation value => exact .literal quotation value
    | pointed first whole_digits fraction_digits => exact .pointed first whole_digits fraction_digits
    | fraction ne digits => exact .fraction ne digits
    | integer first digits short => exact .integer first digits short
    | name first no_digit chars => exact .name first no_digit chars (by simp)
    | nodeType first no_digit chars _ mem => exact .nodeType first no_digit chars (by simp) mem
    | word => exact absurd rfl (no_operator.2 _)
    | times => exact absurd rfl no_operator.1
    | star => exact .star rfl
    | symbol mem => exact .symbol mem

/-! ## Cutting -/

/-- Whether what follows some tokens stands after an operand. -/
def Token.endsOperand (afterOperand : Bool) (tokens : List Token) : Bool :=
  match tokens.getLast? with
  | none => afterOperand
  | some last => last.lexeme.endsOperand

/-- Only the tokens behind a first one matter if there are any. -/
theorem Token.endsOperand_cons (afterOperand : Bool) (token : Token) (tokens : List Token) :
    endsOperand afterOperand (token :: tokens) = endsOperand token.lexeme.endsOperand tokens := by
  cases tokens with
  | nil => rfl
  | cons second tokens => simp [endsOperand, List.getLast?_cons]

/-- The characters of layout are layout in any selection. -/
theorem all_isLayout_of_subset {gap part : Text} (layout : gap.all isLayout = true)
    (subset : part ⊆ gap) : part.all isLayout = true := by
  rw [List.all_eq_true] at layout ⊢
  exact fun c mem => layout c (subset mem)

/-- **The start of a text may be cut off** in front of tokens. -/
theorem Tokenized.drop {afterOperand : Bool} {start : Nat} {text : Text} {front back : List Token}
    (h : Tokenized afterOperand start text (front ++ back)) {position : Nat}
    (le : start ≤ position) (after : ∀ token ∈ front, token.span.stop ≤ position)
    (before : ∀ token ∈ back, position ≤ token.span.start)
    (le' : position ≤ start + text.length) :
    Tokenized (Token.endsOperand afterOperand front) position (text.drop (position - start))
      back := by
  induction front generalizing afterOperand start text with
  | nil =>
    -- The cut is in the layout in front of the first token that stays.
    cases h with
    | layout layout => exact .layout (all_isLayout_of_subset layout (List.drop_subset _ _))
    | @token _ _ gap lexeme c more behind span tokens layout spelled stays starts stops rest =>
      have first := before ⟨lexeme, span⟩ (by simp)
      dsimp only at first
      have shorter : position - start ≤ gap.length := by omega
      rw [List.drop_append_of_le_length shorter]
      refine .token (all_isLayout_of_subset layout (List.drop_subset _ _)) spelled stays ?_ stops
        rest
      rw [List.length_drop]
      omega
  | cons token front ih =>
    cases h with
    | @token _ _ gap lexeme c more behind span tokens layout spelled stays starts stops rest =>
      have first := after ⟨lexeme, span⟩ (by simp)
      dsimp only at first
      simp only [List.length_append, List.length_cons] at le'
      have dropped := ih rest first (fun token mem => after token (by simp [mem])) (by omega)
      rw [Token.endsOperand_cons]
      have length : position - start = (gap ++ c :: more).length + (position - span.stop) := by
        simp only [List.length_append, List.length_cons]
        omega
      rw [length, ← List.drop_drop,
        show gap ++ c :: (more ++ behind) = (gap ++ c :: more) ++ behind by simp, List.drop_left]
      exact dropped

/-- What stays as it is does so before any text that starts alike. -/
theorem Lexeme.StaysBefore.congr {lexeme : Lexeme} {first : Char} {behind behind' : Text}
    (h : lexeme.StaysBefore first behind) (head : behind'.head? = behind.head?)
    (opens : opensParen behind' = opensParen behind) : lexeme.StaysBefore first behind' := by
  cases lexeme <;> simp only [StaysBefore, head, opens] at h ⊢ <;> exact h

/-- What stays as it is does so at the end of a text, unless it is the name of a node type. -/
theorem Lexeme.StaysBefore.nil {lexeme : Lexeme} (first : Char)
    (no_type : ∀ name, lexeme ≠ .nodeType name) : lexeme.StaysBefore first [] := by
  cases lexeme with
  | nodeType name => exact absurd rfl (no_type name)
  | _ => simp [StaysBefore, opensParen]

/-- Layout does not matter to whether a parenthesis is opened behind it. -/
theorem opensParen_append_layout {gap : Text} (layout : gap.all isLayout = true) (text : Text) :
    opensParen (gap ++ text) = opensParen text := by
  rw [opensParen, List.dropWhile_append_of_pos (List.all_eq_true.1 layout)]
  rfl

/-- Layout opens no parenthesis. -/
theorem opensParen_of_layout {gap : Text} (layout : gap.all isLayout = true) :
    opensParen gap = false := by
  rw [← List.append_nil gap, opensParen_append_layout layout]
  rfl

/-- What is not layout opens a parenthesis only itself. -/
theorem opensParen_cons {c : Char} (no_layout : isLayout c = false) (text : Text) :
    opensParen (c :: text) = (c == '(') := by
  simp [opensParen, no_layout]

/-- What is in front of layout stays as it is when only the layout is left. -/
theorem Lexeme.StaysBefore.of_append_layout {lexeme : Lexeme} {first : Char} {gap behind : Text}
    (h : lexeme.StaysBefore first (gap ++ behind)) (layout : gap.all isLayout = true)
    (no_type : ∀ name, lexeme ≠ .nodeType name) : lexeme.StaysBefore first gap := by
  cases gap with
  | nil => exact .nil first no_type
  | cons c gap =>
    cases lexeme with
    | name text => exact ⟨h.1, fun _ => opensParen_of_layout layout⟩
    | nodeType name => exact absurd rfl (no_type name)
    | _ => exact h

/-- A text with tokens starts alike whatever follows it. -/
theorem Tokenized.append_starts {afterOperand : Bool} {start : Nat} {text : Text} {token : Token}
    {tokens : List Token} (h : Tokenized afterOperand start text (token :: tokens))
    (behind : Text) : (text ++ behind).head? = text.head? ∧
      opensParen (text ++ behind) = opensParen text := by
  cases h with
  | @token _ _ gap lexeme c more _ _ _ layout spelled stays starts stops rest =>
    constructor
    · cases gap <;> rfl
    · rw [List.append_assoc, opensParen_append_layout layout, opensParen_append_layout layout,
        List.cons_append, opensParen_cons spelled.not_isLayout,
        opensParen_cons spelled.not_isLayout]

/-- **The end of a text may be cut off** behind tokens, of which the last one must not be the name
of a node type. -/
theorem Tokenized.take {afterOperand : Bool} {start : Nat} {text : Text} {front back : List Token}
    (h : Tokenized afterOperand start text (front ++ back)) {position : Nat}
    (after : ∀ token ∈ front, token.span.stop ≤ position)
    (before : ∀ token ∈ back, position ≤ token.span.start)
    (le' : position ≤ start + text.length)
    (no_type : ∀ token ∈ front.getLast?, ∀ name, token.lexeme ≠ .nodeType name) :
    Tokenized afterOperand start (text.take (position - start)) front := by
  induction front generalizing afterOperand start text with
  | nil =>
    -- Only layout is left, since the cut is no later than the first token behind.
    refine .layout ?_
    cases h with
    | layout layout => exact all_isLayout_of_subset layout (List.take_subset _ _)
    | @token _ _ gap lexeme d more behind span tokens layout spelled stays starts stops rest =>
      have first := before ⟨lexeme, span⟩ (by simp)
      dsimp only at first
      rw [List.take_append_of_le_length (by omega)]
      exact all_isLayout_of_subset layout (List.take_subset _ _)
  | cons token front ih =>
    cases h with
    | @token _ _ gap lexeme c more behind span tokens layout spelled stays starts stops rest =>
      have first := after ⟨lexeme, span⟩ (by simp)
      dsimp only at first
      simp only [List.length_append, List.length_cons] at le'
      have taken := ih rest (fun token mem => after token (by simp [mem])) (by omega)
        (fun last mem => no_type last (by
          rw [List.getLast?_cons, Option.mem_def.1 mem]
          rfl))
      have length : position - start = (gap ++ c :: more).length + (position - span.stop) := by
        simp only [List.length_append, List.length_cons]
        omega
      have text_eq : (gap ++ c :: (more ++ behind)).take (position - start) =
          gap ++ c :: (more ++ behind.take (position - span.stop)) := by
        rw [length, show gap ++ c :: (more ++ behind) = (gap ++ c :: more) ++ behind by simp,
          List.take_append, List.take_of_length_le (by omega)]
        simp
      rw [text_eq]
      refine .token layout spelled ?_ starts stops taken
      -- The lexeme stays before the shorter text: what is left of it is layout, or starts alike.
      have split := List.take_append_drop (position - span.stop) behind
      cases front with
      | nil =>
        rw [← split] at stays
        exact stays.of_append_layout taken.layout_of_nil (no_type ⟨lexeme, span⟩ rfl)
      | cons second front =>
        have starts_alike := taken.append_starts (behind.drop (position - span.stop))
        rw [split] at starts_alike
        exact stays.congr starts_alike.1.symm starts_alike.2.symm

/-! ## Putting together -/

/-- Whether a character may follow a lexeme without becoming a part of it. In front of a parenthesis
a name may be read as something else. -/
def Lexeme.meets : Lexeme → Char → Bool
  | .literal _, c => c ≠ '"' && c ≠ '\''
  | .float _, c => !isDigit c
  | .integer _, c | .dot, c => !isDigit c && c ≠ '.'
  | .name _, c => !isNameChar c && c ≠ '('
  | .nodeType _, c | .word _, c => !isNameChar c
  | .slash, c => c ≠ '/'
  | .colon, c => c ≠ ':'
  | .less, c | .greater, c => c ≠ '='
  | _, _ => true

/-- A lexeme in front of layout stays as it is when a text follows that may meet it. -/
theorem Lexeme.StaysBefore.append {afterOperand : Bool} {lexeme : Lexeme} {first : Char}
    {more gap behind : Text} (h : lexeme.StaysBefore first gap)
    (spelled : lexeme.Spelled afterOperand first more) (layout : gap.all isLayout = true)
    (meets : ∀ c ∈ behind.head?, isLayout c = false ∧ lexeme.meets c = true) :
    lexeme.StaysBefore first (gap ++ behind) := by
  cases gap with
  | cons c gap =>
    -- Behind layout only a parenthesis could matter.
    cases lexeme with
    | name text =>
      refine ⟨h.1, fun mem => ?_⟩
      rw [opensParen_append_layout layout]
      cases behind with
      | nil => rfl
      | cons d behind =>
        obtain ⟨no_layout, meets⟩ := meets d rfl
        rw [opensParen_cons no_layout]
        simp only [Lexeme.meets, Bool.and_eq_true, decide_eq_true_eq] at meets
        simpa using meets.2
    | nodeType name =>
      have closed := opensParen_of_layout layout
      rw [h.2] at closed
      contradiction
    | _ => exact h
  | nil =>
    cases behind with
    | nil => exact h
    | cons d behind =>
      obtain ⟨no_layout, meets⟩ := meets d rfl
      cases lexeme with
      | literal value =>
        have quotation : first = '"' ∨ first = '\'' := by
          cases spelled with
          | literal quotation => exact quotation
          | symbol mem => simp [symbols] at mem
        obtain rfl | rfl := quotation <;> simp_all [StaysBefore, Lexeme.meets]
      | nodeType name => exact absurd h.2 (by simp [opensParen])
      | _ => simp_all [StaysBefore, Lexeme.meets, opensParen_cons no_layout]

/-- **Texts may be put together** where the last token of the first one meets the second one. -/
theorem Tokenized.append {afterOperand : Bool} {start : Nat} {text behind : Text}
    {front back : List Token} (h : Tokenized afterOperand start text front)
    (h' : Tokenized (Token.endsOperand afterOperand front) (start + text.length) behind back)
    (meets : ∀ token ∈ front.getLast?, ∀ c ∈ behind.head?,
      isLayout c = false ∧ token.lexeme.meets c = true) :
    Tokenized afterOperand start (text ++ behind) (front ++ back) := by
  induction h with
  | @layout afterOperand start gap layout =>
    cases h' with
    | layout layout' => exact .layout (by simp [layout, layout'])
    | @token _ _ gap' _ _ _ _ _ _ layout' spelled stays starts stops rest =>
      rw [← List.append_assoc]
      refine .token (by simp [layout, layout']) spelled stays ?_ stops rest
      rw [starts, List.length_append, Nat.add_assoc]
  | @token afterOperand start gap lexeme c more text span tokens layout spelled stays starts stops
      rest ih =>
    rw [Token.endsOperand_cons] at h'
    have length : start + (gap ++ c :: (more ++ text)).length = span.stop + text.length := by
      simp only [List.length_append, List.length_cons]
      omega
    rw [length] at h'
    have meets_rest : ∀ token ∈ tokens.getLast?, ∀ c ∈ behind.head?,
        isLayout c = false ∧ token.lexeme.meets c = true := fun token mem => meets token (by
      rw [List.getLast?_cons, Option.mem_def.1 mem]
      rfl)
    rw [show gap ++ c :: (more ++ text) ++ behind = gap ++ c :: (more ++ (text ++ behind)) by simp]
    refine .token layout spelled ?_ starts stops (ih h' meets_rest)
    -- Only the last token of the first text comes in front of the second one.
    cases tokens with
    | nil => exact stays.append spelled rest.layout_of_nil (meets ⟨lexeme, span⟩ rfl)
    | cons second tokens =>
      have starts_alike := rest.append_starts behind
      exact stays.congr starts_alike.1 starts_alike.2

/-- A lexeme alone is a token. -/
theorem Lexeme.Spelled.tokenized {afterOperand : Bool} {lexeme : Lexeme} {c : Char} {more : Text}
    (h : lexeme.Spelled afterOperand c more) (no_type : ∀ name, lexeme ≠ .nodeType name)
    (start : Nat) :
    Tokenized afterOperand start (c :: more) [⟨lexeme, ⟨start, start + (c :: more).length⟩⟩] := by
  have alone : Tokenized afterOperand start ([] ++ c :: (more ++ []))
      [⟨lexeme, ⟨start, start + 1 + more.length⟩⟩] :=
    .token List.all_nil h (.nil c no_type) rfl rfl (.layout List.all_nil)
  rw [List.length_cons, Nat.add_comm more.length, ← Nat.add_assoc]
  simpa using alone

end LocationPath
