import LocationPath.Proofs.Lexing.Tokenized
import LocationPath.Proofs.Printing.Neighbours

/-! # Printed texts that are read again

Lexemes that stood side by side in an expression are read again from their printed text. Two things
go wrong only: a name takes in the minus sign behind it, and a number that is printed as infinity or
with an exponent is taken for something else.

Main definitions: `Text.LexesAs`, `Lexeme.Legible` and `Lexeme.Plain`. Main result:
`Lexeme.Legible.lexesAs_iff`. -/

namespace LocationPath

/-! ## The lexemes of a text -/

/-- A text that stands after an operand or elsewhere is read as some lexemes, to its end. -/
def Text.LexesAs (afterOperand : Bool) (text : Text) (lexemes : List Lexeme) : Prop :=
  ∃ tokens, Tokenized afterOperand 0 text tokens ∧ tokens.map (·.lexeme) = lexemes

namespace Text

/-- The lexemes of a text do not depend on where it starts. -/
theorem lexesAs_iff {afterOperand : Bool} {text : Text} {lexemes : List Lexeme} (start : Nat) :
    LexesAs afterOperand text lexemes ↔
      (Lexing.ofTextFrom afterOperand start text).ending = .finished ∧
        (Lexing.ofTextFrom afterOperand start text).tokens.map (·.lexeme) = lexemes := by
  constructor
  · rintro ⟨tokens, tokenized, rfl⟩
    have moved := tokenized.shift 0 start (Nat.le_refl 0)
    rw [Nat.zero_add, Nat.sub_zero, tokenized_iff] at moved
    rw [moved, List.map_map]
    exact ⟨rfl, rfl⟩
  · rintro ⟨finished, rfl⟩
    have tokenized : Tokenized afterOperand start text
        (Lexing.ofTextFrom afterOperand start text).tokens := by
      rw [tokenized_iff, ← finished]
    have moved := tokenized.shift start 0 (Nat.le_refl start)
    rw [Nat.add_zero, Nat.sub_self] at moved
    refine ⟨_, moved, ?_⟩
    rw [List.map_map]
    rfl

/-- An empty text is read as nothing. -/
theorem lexesAs_nil (afterOperand : Bool) : LexesAs afterOperand [] [] :=
  ⟨[], .layout rfl, rfl⟩

/-- Layout in front of a text does not matter. -/
theorem lexesAs_append_layout {afterOperand : Bool} {gap : Text} (layout : gap.all isLayout = true)
    (text : Text) (lexemes : List Lexeme) :
    LexesAs afterOperand (gap ++ text) lexemes ↔ LexesAs afterOperand text lexemes := by
  rw [lexesAs_iff 0, lexesAs_iff (0 + gap.length),
    Lexing.ofTextFrom_append_layout afterOperand 0 layout]

/-- A spelled lexeme that stays as it is is read in front of what follows. -/
theorem lexesAs_cons {afterOperand : Bool} {lexeme : Lexeme} {c : Char} {more behind : Text}
    (spelled : lexeme.Spelled afterOperand c more) (stays : lexeme.StaysBefore c behind)
    (lexemes : List Lexeme) : LexesAs afterOperand (c :: (more ++ behind)) (lexeme :: lexemes) ↔
      LexesAs lexeme.endsOperand behind lexemes := by
  rw [lexesAs_iff 0, lexesAs_iff (0 + 1 + more.length),
    Lexing.ofTextFrom_of_spelled 0 spelled stays]
  simp only [List.map_cons, List.cons.injEq, true_and]

/-- What is read first of a text that does not start with layout is spelled there. -/
theorem LexesAs.exists_spelled {afterOperand : Bool} {c : Char} {text : Text} {lexeme : Lexeme}
    {lexemes : List Lexeme} (h : LexesAs afterOperand (c :: text) (lexeme :: lexemes))
    (no_layout : isLayout c = false) : ∃ more behind, text = more ++ behind ∧
      lexeme.Spelled afterOperand c more ∧ lexeme.StaysBefore c behind ∧
        LexesAs lexeme.endsOperand behind lexemes := by
  rcases h with ⟨tokens, tokenized, eq⟩
  generalize whole : c :: text = full at tokenized
  cases tokenized with
  | layout => simp at eq
  | @token _ _ gap first d more behind span tokens layout spelled stays starts stops rest =>
    rw [List.map_cons, List.cons.injEq] at eq
    obtain ⟨rfl, rfl⟩ := eq
    cases gap with
    | nil =>
      obtain ⟨rfl, rfl⟩ := List.cons.inj whole
      refine ⟨more, behind, rfl, spelled, stays, ?_⟩
      have moved := rest.shift span.stop 0 (Nat.le_refl _)
      rw [Nat.add_zero, Nat.sub_self] at moved
      exact ⟨_, moved, by rw [List.map_map]; rfl⟩
    | cons g gap =>
      -- The text does not start with layout.
      obtain ⟨rfl, -⟩ := List.cons.inj whole
      rw [List.all_cons, no_layout] at layout
      contradiction

/-- A text that does not start with layout is not read as nothing. -/
theorem LexesAs.isLayout_of_nil {afterOperand : Bool} {c : Char} {text : Text}
    (h : LexesAs afterOperand (c :: text) []) : isLayout c = true := by
  rcases h with ⟨tokens, tokenized, eq⟩
  rw [List.map_eq_nil_iff] at eq
  subst eq
  have layout := tokenized.layout_of_nil
  rw [List.all_cons, Bool.and_eq_true] at layout
  exact layout.1

end Text

/-! ## Characters that lexemes start with -/

namespace Lexeme

/-- Some marks that start no numbers, names, literals, words or blanks. -/
private theorem of_mem_marks {c : Char} (mem : c ∈ ['(', '/', ':', '=']) :
    isDigit c = false ∧ isNameStart c = false ∧
      c ≠ '"' ∧ c ≠ '\'' ∧ c ≠ '.' ∧ c ≠ '*' ∧ c ≠ ' ' ∧ c ≠ 'i' := by
  simp only [List.mem_cons, List.not_mem_nil, or_false] at mem
  rcases mem with rfl | rfl | rfl | rfl <;> decide +kernel

/-- What starts with a mark that no name, number or literal starts with is a symbol. -/
theorem Spelled.mem_symbols {afterOperand : Bool} {lexeme : Lexeme} {c : Char} {more : Text}
    (h : lexeme.Spelled afterOperand c more) (mem : c ∈ ['(', '/', ':', '=']) :
    (lexeme, c, more) ∈ symbols := by
  obtain ⟨digit, name, quotation, apostrophe, point, star, -⟩ := of_mem_marks mem
  cases h with
  | literal mark =>
    rcases mark with eq | eq
    · exact absurd eq quotation
    · exact absurd eq apostrophe
  | pointed first | integer first =>
    rw [digit] at first
    contradiction
  | fraction => exact absurd rfl point
  | name first | nodeType first | word first =>
    rw [name] at first
    contradiction
  | times | star => exact absurd rfl star
  | symbol mem => exact mem

/-- The symbols that start with a mark of which several symbols start. -/
theorem eq_of_mem_symbols : ∀ symbol ∈ symbols,
    (symbol.2.1 = '(' → symbol.1 = .openParen) ∧
    (symbol.2.1 = '/' → symbol.1 ∈ [.slash, .slashes]) ∧
    (symbol.2.1 = ':' → symbol.1 ∈ [.colon, .axisMark, .equal]) ∧
    (symbol.2.1 = '=' → symbol.1 ∈ [.colon, .axisMark, .equal]) := by
  decide +kernel

end Lexeme

/-- A text opens a parenthesis if this is its first lexeme. -/
theorem Tokenized.opensParen_iff {afterOperand : Bool} {start : Nat} {text : Text}
    {tokens : List Token} (h : Tokenized afterOperand start text tokens) :
    opensParen text = true ↔ (tokens.map (·.lexeme)).head? = some .openParen := by
  cases h with
  | layout layout => simp [opensParen_of_layout layout]
  | @token _ _ gap lexeme c more behind span tokens layout spelled stays starts stops rest =>
    rw [opensParen_append_layout layout, opensParen_cons spelled.not_isLayout, List.map_cons,
      List.head?_cons, Option.some.injEq, beq_iff_eq]
    constructor
    · rintro rfl
      exact (Lexeme.eq_of_mem_symbols _ (spelled.mem_symbols (by simp))).1 rfl
    · rintro rfl
      cases spelled with
      | symbol mem =>
        have symbol : c = '(' ∧ more = [] := by simpa [Lexeme.symbols] using mem
        exact symbol.1

/-! ## Legible lexemes -/

namespace Lexeme

/-- A lexeme fits in front of what comes next, if anything does: it can be spelled, it may stand in
front of it, and it is a node type exactly in front of a parenthesis. -/
structure Fits (afterOperand : Bool) (lexeme : Lexeme) (next : Option Lexeme) : Prop where
  /-- The lexeme can be spelled. -/
  spelled : ∃ c more, lexeme.Spelled afterOperand c more
  /-- The lexeme may stand in front of the next one. -/
  precedes : ∀ other ∈ next, lexeme.precedes other = true
  /-- A node type stands in front of a parenthesis. -/
  opens : ∀ name, lexeme = .nodeType name → next = some .openParen
  /-- A name of a node type that is none does not. -/
  not_opens : ∀ name, lexeme = .name name → name ∈ nodeTypeNames → next ≠ some .openParen

/-- Lexemes behind one another all fit, after an operand or elsewhere. -/
inductive Legible : Bool → List Lexeme → Prop where
  | nil (afterOperand : Bool) : Legible afterOperand []
  | cons {afterOperand : Bool} {lexeme : Lexeme} {lexemes : List Lexeme}
    (fits : lexeme.Fits afterOperand lexemes.head?) (rest : Legible lexeme.endsOperand lexemes) :
    Legible afterOperand (lexeme :: lexemes)

end Lexeme

/-- **The lexemes of a text are legible** if they are neighbours. -/
theorem Tokenized.legible {afterOperand : Bool} {start : Nat} {text : Text} {tokens : List Token}
    (h : Tokenized afterOperand start text tokens)
    (neighbours : Derivation.Neighbours (tokens.map (·.lexeme))) :
    Lexeme.Legible afterOperand (tokens.map (·.lexeme)) := by
  induction h with
  | layout => exact .nil _
  | @token _ _ gap lexeme c more behind span tokens layout spelled stays starts stops rest ih =>
    rw [List.map_cons, Derivation.Neighbours, List.isChain_cons] at neighbours
    refine .cons ⟨⟨c, more, spelled⟩, neighbours.1, ?_, ?_⟩ (ih neighbours.2)
    · rintro name rfl
      exact rest.opensParen_iff.1 stays.2
    · rintro name rfl mem opens
      have closed := stays.2 mem
      rw [rest.opensParen_iff.2 opens] at closed
      contradiction

namespace Lexeme

/-! ## What a printed text starts with -/

/-- The character that a lexeme is printed with first. -/
def lead : Lexeme → Option Char
  | .word _ => some ' '
  | lexeme => lexeme.spelling.head?

/-- A spelled lexeme is printed with something. -/
theorem Spelled.spelling_ne_nil {afterOperand : Bool} {lexeme : Lexeme} {c : Char} {more : Text}
    (h : lexeme.Spelled afterOperand c more) : lexeme.spelling ≠ [] := by
  by_cases readable : lexeme.isReadable = true
  · obtain ⟨first, rest, eq, -⟩ := h.respelled readable
    rw [eq]
    exact List.cons_ne_nil _ _
  · obtain ⟨number, -, infinite | ⟨first, mantissa, sign, exponent, eq, -⟩⟩ :=
      h.unreadable (by simpa using readable)
    · rw [infinite]
      exact List.cons_ne_nil _ _
    · rw [eq]
      exact List.cons_ne_nil _ _

/-- A printed text starts as its first lexeme is printed. -/
theorem head?_of_prints {lexeme : Lexeme} {lexemes : List Lexeme} {text : Text}
    (h : text.Prints (lexeme :: lexemes)) (ne : lexeme.spelling ≠ []) :
    text.head? = lexeme.lead := by
  cases h with
  | cons margins rest =>
    cases margins with
    | word => rfl
    | comma => rfl
    | none no_word =>
      obtain ⟨c, more, eq⟩ := List.exists_cons_of_ne_nil ne
      have lead_eq : lexeme.lead = lexeme.spelling.head? := by
        cases lexeme <;> first | rfl | contradiction
      rw [lead_eq, eq]
      rfl

/-- What starts no step is printed with a character that ends numbers and literals, and names too
unless it is the minus sign. -/
theorem lead_of_startsStep_eq_false {lexeme : Lexeme} (h : lexeme.startsStep = false) :
    ∃ d, lexeme.lead = some d ∧ isDigit d = false ∧ d ≠ '.' ∧ d ≠ '"' ∧ d ≠ '\'' ∧
      (lexeme ≠ .minus → isNameChar d = false) := by
  cases lexeme with
  | minus => exact ⟨'-', rfl, by decide, by decide, by decide, by decide, fun ne => absurd rfl ne⟩
  | word word => exact ⟨' ', rfl, by decide, by decide, by decide, by decide, fun _ => by decide⟩
  | _ =>
    first
    | contradiction
    | exact ⟨_, rfl, by decide, by decide, by decide, by decide, fun _ => by decide +kernel⟩

/-- A printed text that starts no step and no parenthesis opens none. -/
theorem opensParen_of_prints {lexeme : Lexeme} {lexemes : List Lexeme} {text : Text}
    (h : text.Prints (lexeme :: lexemes)) (no_start : lexeme.startsStep = false) :
    opensParen text = false := by
  cases h with
  | cons margins rest =>
    cases margins with
    | word word => cases word <;> rfl
    | comma => rfl
    | none no_word => cases lexeme <;> first | rfl | contradiction

/-! ## Lexemes in printed texts -/

/-- Whether two lexemes side by side are read apart when nothing is printed between them: a minus
sign behind a name is taken in by it. -/
def apart : Lexeme → Lexeme → Bool
  | .name _, .minus => false
  | _, _ => true

/-- What ends a step stays as it is in front of a text that starts no step. -/
theorem staysBefore_of_endsStep {afterOperand : Bool} {lexeme : Lexeme} {first d : Char}
    {more text : Text} (spelled : lexeme.Spelled afterOperand first more)
    (ends : lexeme.endsStep = true) (head : text.head? = some d) (no_digit : isDigit d = false)
    (no_point : d ≠ '.') (no_quotation : d ≠ '"') (no_apostrophe : d ≠ '\'')
    (no_name : ∀ name, lexeme = .name name → isNameChar d = false)
    (no_paren : opensParen text = false) : lexeme.StaysBefore first text := by
  have of_head : ∀ {p : Char → Prop}, p d → ∀ c ∈ text.head?, p c := by
    intro p holds c mem
    rw [head] at mem
    obtain rfl := Option.mem_some.1 mem
    exact holds
  cases lexeme with
  | literal value =>
    show text.head? ≠ some first
    rw [head]
    rintro eq
    obtain rfl := Option.some.inj eq
    -- Only its own mark behind it would make a literal longer.
    cases spelled with
    | literal quotation =>
      rcases quotation with eq | eq
      · exact no_quotation eq
      · exact no_apostrophe eq
    | symbol mem => simp [symbols] at mem
  | float => exact of_head no_digit
  | integer => exact of_head ⟨no_digit, no_point⟩
  | dot => exact of_head ⟨no_digit, no_point⟩
  | name name => exact ⟨of_head (no_name name rfl), fun _ => no_paren⟩
  | nodeType => contradiction
  | dots | closeParen | closeBracket | star => trivial
  | _ => contradiction

/-- Behind the end of a step nothing starts a step but a parenthesis. -/
theorem startsStep_of_precedes {lexeme next : Lexeme} (ends : lexeme.endsStep = true)
    (precedes : lexeme.precedes next = true) (ne : next ≠ .openParen) :
    next.startsStep = false := by
  cases lexeme with
  | name name =>
    cases next <;> first | rfl | contradiction
  | dot | dots | closeParen | closeBracket | star | literal | float | integer =>
    cases next <;> first | rfl | contradiction
  | _ => contradiction

/-- What may stand in front of a parenthesis stays as it is there. -/
theorem staysBefore_paren {lexeme : Lexeme} {first : Char} {text : Text}
    (precedes : lexeme.precedes .openParen = true) (no_word : lexeme.isWord = false)
    (not_opens : ∀ name, lexeme = .name name → name ∉ nodeTypeNames)
    (head : text.head? = some '(') (opens : opensParen text = true) :
    lexeme.StaysBefore first text := by
  have no_name : ∀ c ∈ text.head?, isNameChar c = false := by
    intro c mem
    rw [head] at mem
    obtain rfl := Option.mem_some.1 mem
    decide
  have other : ∀ c, c ≠ '(' → text.head? ≠ some c := by
    intro c ne eq
    rw [head] at eq
    exact ne (Option.some.inj eq).symm
  cases lexeme with
  -- A name of a node type would be read as one in front of a parenthesis.
  | name name => exact ⟨no_name, fun mem => absurd mem (not_opens name rfl)⟩
  | nodeType => exact ⟨no_name, opens⟩
  | slash => exact other '/' (by decide)
  | colon => exact other ':' (by decide)
  | less | greater => exact other '=' (by decide)
  | literal | float | integer | dot | word => contradiction
  | _ => trivial

/-- A printed text that starts with one of some marks starts with a symbol. -/
theorem mem_symbols_of_prints {afterOperand : Bool} {lexeme : Lexeme} {lexemes : List Lexeme}
    {text : Text} (h : text.Prints (lexeme :: lexemes))
    (spelled : ∃ c more, lexeme.Spelled afterOperand c more) {mark : Char}
    (head : text.head? = some mark) (mem : mark ∈ ['(', '/', ':', '=']) :
    ∃ more, (lexeme, mark, more) ∈ symbols := by
  obtain ⟨c, more, spelled⟩ := spelled
  obtain ⟨no_digit, -, -, -, -, -, no_space, no_letter⟩ := of_mem_marks mem
  rw [head?_of_prints h spelled.spelling_ne_nil] at head
  by_cases word : lexeme.isWord = true
  · cases lexeme with
    | word => exact absurd (Option.some.inj head).symm no_space
    | _ => contradiction
  · have lead_eq : lexeme.lead = lexeme.spelling.head? := by
      cases lexeme <;> first | rfl | exact absurd rfl word
    rw [lead_eq] at head
    -- A lexeme that is printed as it is written starts as it is spelled; others are printed as
    -- numbers that start with a digit or a letter.
    by_cases readable : lexeme.isReadable = true
    · obtain ⟨first, rest, eq, respelled⟩ := spelled.respelled readable
      rw [eq] at head
      obtain rfl := Option.some.inj head
      exact ⟨rest, respelled.mem_symbols mem⟩
    · obtain ⟨number, -, infinite | ⟨first, mantissa, sign, exponent, eq, digit, -⟩⟩ :=
        spelled.unreadable (by simpa using readable)
      · rw [infinite] at head
        exact absurd (Option.some.inj head).symm no_letter
      · rw [eq] at head
        obtain rfl := Option.some.inj head
        rw [no_digit] at digit
        contradiction

/-- An operator or a mark stays as it is in front of what may follow it: nothing there makes it
longer. -/
theorem staysBefore_of_mark {afterOperand : Bool} {lexeme next : Lexeme} {lexemes : List Lexeme}
    {first : Char} {text : Text} (precedes : lexeme.precedes next = true)
    (no_word : lexeme.isWord = false) (ends : lexeme.endsStep ≠ true) (paren : next ≠ .openParen)
    (printed : text.Prints (next :: lexemes))
    (spelled : ∃ c more, next.Spelled afterOperand c more) : lexeme.StaysBefore first text := by
  -- What would make the mark longer is a symbol that starts with the same character.
  have head : ∀ mark ∈ ['(', '/', ':', '='], text.head? = some mark →
      ∃ more, (next, mark, more) ∈ symbols :=
    fun mark mem eq => mem_symbols_of_prints printed spelled eq mem
  cases lexeme with
  | nodeType => exact absurd (of_decide_eq_true precedes) paren
  | slash =>
    intro eq
    obtain ⟨more, mem⟩ := head '/' (by simp) eq
    exact of_decide_eq_true precedes ((eq_of_mem_symbols _ mem).2.1 rfl)
  | colon =>
    intro eq
    obtain ⟨more, mem⟩ := head ':' (by simp) eq
    exact of_decide_eq_true precedes ((eq_of_mem_symbols _ mem).2.2.1 rfl)
  | less | greater =>
    intro eq
    obtain ⟨more, mem⟩ := head '=' (by simp) eq
    exact of_decide_eq_true precedes ((eq_of_mem_symbols _ mem).2.2.2 rfl)
  | literal | float | integer | name | dot => exact absurd rfl ends
  | word => contradiction
  | _ => trivial

/-- **A printed lexeme stays as it is** in front of the printed lexemes that it fits, unless it is a
name in front of a minus sign. -/
theorem Fits.staysBefore {afterOperand : Bool} {lexeme : Lexeme} {lexemes : List Lexeme}
    {first : Char} {before more after text : Text} (fits : lexeme.Fits afterOperand lexemes.head?)
    (legible : Legible lexeme.endsOperand lexemes) (printed : text.Prints lexemes)
    (apart : ∀ other ∈ lexemes.head?, lexeme.apart other = true)
    (margins : lexeme.Margins before after) (spelled : lexeme.Spelled afterOperand first more) :
    lexeme.StaysBefore first (after ++ text) := by
  cases margins with
  -- A word has a blank behind it.
  | word word =>
    intro c mem
    obtain rfl : ' ' = c := Option.mem_some.1 mem
    decide
  | comma => trivial
  | none no_word =>
    rw [List.nil_append]
    cases legible with
    | nil =>
      obtain rfl : text = [] := by
        cases printed
        rfl
      refine .nil first fun name eq => ?_
      have next := fits.opens name eq
      contradiction
    | @cons _ next lexemes next_fits rest =>
      have precedes := fits.precedes next rfl
      by_cases paren : next = .openParen
      · subst paren
        have head := head?_of_prints printed (List.cons_ne_nil _ _)
        refine staysBefore_paren precedes no_word (fun name eq mem => ?_) head ?_
        · exact fits.not_opens name eq mem rfl
        · cases printed with
          | cons margins rest =>
            cases margins
            rfl
      · by_cases ends : lexeme.endsStep = true
        · have no_start := startsStep_of_precedes ends precedes paren
          obtain ⟨c, more, next_spelled⟩ := next_fits.spelled
          obtain ⟨d, lead, no_digit, no_point, no_quotation, no_apostrophe, no_name⟩ :=
            lead_of_startsStep_eq_false no_start
          refine staysBefore_of_endsStep spelled ends
            ((head?_of_prints printed next_spelled.spelling_ne_nil).trans lead) no_digit no_point
            no_quotation no_apostrophe (fun name eq => no_name ?_)
            (opensParen_of_prints printed no_start)
          -- A minus sign behind a name is the one case that is left out.
          rintro rfl
          subst eq
          have apart := apart .minus rfl
          contradiction
        · exact staysBefore_of_mark precedes no_word ends paren printed next_fits.spelled

end Lexeme

end LocationPath
