import LocationPath.Proofs.Printing.Rereading

/-! # Where printed texts are read otherwise

Two lexemes side by side are taken for one only where a minus sign is printed behind a name; and one
is taken for several only where a number is printed as infinity or with an exponent.

Main definition: `Lexeme.Plain`. Main result: `Lexeme.Legible.lexesAs_iff`. -/

namespace LocationPath

namespace Lexeme

/-- No number is printed but in places, and no minus sign behind a name. -/
def Plain (lexemes : List Lexeme) : Prop :=
  (∀ lexeme ∈ lexemes, lexeme.isReadable = true) ∧
    lexemes.IsChain fun lexeme next => lexeme.apart next = true

/-- Nothing is plain. -/
theorem plain_nil : Plain [] := ⟨by simp, List.isChain_nil⟩

/-- Lexemes are plain if the first one is printed in a plain way and the others are plain. -/
theorem plain_cons {lexeme : Lexeme} {lexemes : List Lexeme} : Plain (lexeme :: lexemes) ↔
    lexeme.isReadable = true ∧ (∀ next ∈ lexemes.head?, lexeme.apart next = true) ∧
      Plain lexemes := by
  rw [Plain, Plain, List.forall_mem_cons, List.isChain_cons]
  constructor
  · rintro ⟨⟨readable, all⟩, apart, chain⟩
    exact ⟨readable, apart, all, chain⟩
  · rintro ⟨readable, apart, all, chain⟩
    exact ⟨⟨readable, all⟩, apart, chain⟩

/-- Lexemes behind one another are plain if both are and they are read apart. -/
theorem plain_append {lexemes lexemes' : List Lexeme} : Plain (lexemes ++ lexemes') ↔
    Plain lexemes ∧ Plain lexemes' ∧
      ∀ last ∈ lexemes.getLast?, ∀ next ∈ lexemes'.head?, last.apart next = true := by
  rw [Plain, Plain, Plain, List.forall_mem_append, List.isChain_append]
  constructor
  · rintro ⟨⟨all, all'⟩, chain, chain', apart⟩
    exact ⟨⟨all, chain⟩, ⟨all', chain'⟩, apart⟩
  · rintro ⟨⟨all, chain⟩, ⟨all', chain'⟩, apart⟩
    exact ⟨⟨all, all'⟩, chain, chain', apart⟩

/-! ## Names in front of a minus sign -/

/-- **A minus sign behind a name is taken in by it.** -/
theorem not_lexesAs_of_name_minus {afterOperand : Bool} {name text : Text} {lexemes : List Lexeme}
    (spelled : ∃ c more, (Lexeme.name name).Spelled afterOperand c more)
    (printed : text.Prints (.name name :: .minus :: lexemes)) :
    ¬text.LexesAs afterOperand (.name name :: .minus :: lexemes) := by
  intro read
  obtain ⟨c, more, spelled⟩ := spelled
  have text_eq : ∃ behind, text = c :: (more ++ '-' :: behind) := by
    cases printed with
    | cons margins rest =>
      cases margins
      cases rest with
      | @cons _ _ _ behind _ margins rest =>
        cases margins
        refine ⟨behind, ?_⟩
        show name ++ '-' :: behind = _
        rw [spelled.name_eq]
        rfl
  obtain ⟨behind, rfl⟩ := text_eq
  obtain ⟨more', behind', eq, spelled', stays, -⟩ := read.exists_spelled spelled.not_isLayout
  obtain rfl : more = more' := (List.cons.inj (spelled.name_eq.symm.trans spelled'.name_eq)).2
  obtain rfl := List.append_cancel_left eq
  -- A name is read to its end, and the minus sign is a character of names.
  have no_minus := stays.1 '-' rfl
  revert no_minus
  decide

/-! ## Numbers that are not written in places -/

/-- A number with a point starts with digits up to the point. -/
theorem Spelled.float_first {afterOperand : Bool} {number : Binary64} {c : Char} {more : Text}
    (h : (Lexeme.float number).Spelled afterOperand c more) : c = '.' ∨ isDigit c = true ∧
      ∃ whole fraction, more = whole ++ '.' :: fraction ∧ whole.all isDigit = true ∧
        fraction.all isDigit = true := by
  generalize eq : Lexeme.float number = lexeme at h
  cases h with
  | pointed first whole_digits fraction_digits =>
    exact .inr ⟨first, _, _, rfl, whole_digits, fraction_digits⟩
  | fraction => exact .inl rfl
  | symbol mem =>
    subst eq
    simp [symbols] at mem
  | _ => contradiction

/-- What starts with the letter of an exponent starts a step or is an operator word. -/
theorem Spelled.of_letter {afterOperand : Bool} {lexeme : Lexeme} {more : Text}
    (h : lexeme.Spelled afterOperand 'e' more) :
    lexeme.startsStep = true ∨ ∃ word, OperatorWord.ofName? ('e' :: more) = some word := by
  have letter : isDigit 'e' = false := by decide
  cases h with
  | literal quotation => rcases quotation with eq | eq <;> contradiction
  | pointed first | integer first =>
    rw [letter] at first
    contradiction
  | name => exact .inl rfl
  | nodeType => exact .inl rfl
  | word _ _ _ _ spelling => exact .inr ⟨_, spelling⟩
  | symbol mem => simp [symbols] at mem

/-- No operator word is an `e` in front of a sign. -/
theorem ofName?_letter_sign {more : Text} {word : OperatorWord}
    (h : OperatorWord.ofName? ('e' :: more) = some word) : more = ['q'] := by
  have spelling := OperatorWord.spelling_of_ofName? h
  cases word <;> simp_all [OperatorWord.spelling]

/-- Two runs of digits in front of what is no digit are the same. -/
theorem digits_append_inj {digits digits' behind behind' : Text} (all : digits.all isDigit = true)
    (all' : digits'.all isDigit = true) (stop : ∀ c ∈ behind.head?, isDigit c = false)
    (stop' : ∀ c ∈ behind'.head?, isDigit c = false) (eq : digits ++ behind = digits' ++ behind') :
    digits = digits' ∧ behind = behind' := by
  have run := takeWhile_append_of_stop all stop
  rw [eq, takeWhile_append_of_stop all' stop'] at run
  subst run
  exact ⟨rfl, List.append_cancel_left eq⟩

/-- **A number that is printed with an exponent is not read again**: behind the digits a name would
start, where no step may start. -/
theorem not_lexesAs_of_scientific {afterOperand : Bool} {number : Binary64} {text behind : Text}
    {lexemes : List Lexeme} (scientific : text.IsScientific)
    (precedes : ∀ next ∈ lexemes.head?, (Lexeme.float number).precedes next = true) :
    ¬(text ++ behind).LexesAs afterOperand (.float number :: lexemes) := by
  intro read
  rcases scientific with ⟨c, mantissa, sign, exponent, rfl, digit, shape, signs⟩
  have no_layout : isLayout c = false :=
    (@Spelled.integer afterOperand c [] digit rfl (by decide)).not_isLayout
  obtain ⟨more, after, eq, spelled, stays, read⟩ := read.exists_spelled no_layout
  rcases spelled.float_first with rfl | ⟨-, whole, fraction, rfl, whole_digits, fraction_digits⟩
  · contradiction
  -- The point must stand right behind the first digit.
  obtain ⟨digits, rfl, all⟩ : ∃ more, mantissa = '.' :: more ∧ more.all isDigit = true := by
    rcases shape with rfl | shape
    · cases whole with
      | nil => cases (List.cons.inj eq).1
      | cons d whole =>
        obtain rfl := (List.cons.inj eq).1
        rw [List.all_cons] at whole_digits
        contradiction
    · exact shape
  cases whole with
  | cons d whole =>
    obtain rfl := (List.cons.inj eq).1
    rw [List.all_cons] at whole_digits
    contradiction
  | nil =>
    have tail : digits ++ 'e' :: sign :: (exponent ++ behind) = fraction ++ after := by
      simpa using eq
    have stop : ∀ c ∈ ('e' :: sign :: (exponent ++ behind)).head?, isDigit c = false := by
      intro c mem
      obtain rfl := Option.mem_some.1 mem
      decide
    obtain ⟨rfl, rfl⟩ := digits_append_inj all fraction_digits stop stays tail
    cases lexemes with
    | nil =>
      have layout := read.isLayout_of_nil
      contradiction
    | cons next lexemes =>
      obtain ⟨more, after, eq, spelled, -⟩ := read.exists_spelled (by decide)
      rcases spelled.of_letter with starts | ⟨word, found⟩
      · have no_start : (!next.startsStep) = true := precedes next rfl
        rw [starts] at no_start
        contradiction
      · rw [ofName?_letter_sign found] at eq
        obtain rfl := (List.cons.inj eq).1
        rcases signs with sign | sign <;> contradiction

/-- **Infinity is not read again** as a number: its text is a name. -/
theorem not_lexesAs_of_infinite {afterOperand : Bool} {number : Binary64} {behind : Text}
    {lexemes : List Lexeme} :
    ¬Text.LexesAs afterOperand ("inf".toList ++ behind) (.float number :: lexemes) := by
  intro read
  obtain ⟨more, after, -, spelled, -⟩ := read.exists_spelled (by decide)
  rcases spelled.float_first with point | ⟨digit, -⟩
  · contradiction
  · revert digit
    decide

/-- A lexeme that is not readable is not read again. -/
theorem not_lexesAs_of_unreadable {afterOperand : Bool} {lexeme : Lexeme} {lexemes : List Lexeme}
    {text : Text} (fits : lexeme.Fits afterOperand lexemes.head?)
    (unreadable : lexeme.isReadable = false) (printed : text.Prints (lexeme :: lexemes)) :
    ¬text.LexesAs afterOperand (lexeme :: lexemes) := by
  obtain ⟨c, more, spelled⟩ := fits.spelled
  obtain ⟨number, rfl, wrong⟩ := spelled.unreadable unreadable
  cases printed with
  | cons margins rest =>
    cases margins
    rw [List.nil_append]
    rcases wrong with infinite | scientific
    · rw [infinite]
      exact not_lexesAs_of_infinite
    · exact not_lexesAs_of_scientific scientific fits.precedes

/-! ## The main result -/

/-- Margins are layout. -/
theorem Margins.layout {lexeme : Lexeme} {before after : Text} (h : lexeme.Margins before after) :
    before.all isLayout = true ∧ after.all isLayout = true := by
  cases h <;> exact ⟨rfl, rfl⟩

/-- **Legible lexemes are read from their printed text exactly if they are plain.** -/
theorem Legible.lexesAs_iff {afterOperand : Bool} {lexemes : List Lexeme} {text : Text}
    (legible : Legible afterOperand lexemes) (printed : text.Prints lexemes) :
    text.LexesAs afterOperand lexemes ↔ Plain lexemes := by
  induction legible generalizing text with
  | nil =>
    cases printed
    exact ⟨fun _ => plain_nil, fun _ => Text.lexesAs_nil _⟩
  | @cons afterOperand lexeme lexemes fits rest ih =>
    rw [plain_cons]
    by_cases readable : lexeme.isReadable = true
    · by_cases apart : ∀ next ∈ lexemes.head?, lexeme.apart next = true
      · -- The first lexeme is read, and with it the question is that of the others.
        cases printed with
        | @cons _ before after text _ margins rest_printed =>
          obtain ⟨c, more, spelled⟩ := fits.spelled
          obtain ⟨first, others, eq, respelled⟩ := spelled.respelled readable
          have stays := fits.staysBefore rest rest_printed apart margins respelled
          rw [Text.lexesAs_append_layout margins.layout.1, eq, List.cons_append,
            Text.lexesAs_cons respelled stays, Text.lexesAs_append_layout margins.layout.2,
            ih rest_printed]
          exact ⟨fun plain => ⟨readable, apart, plain⟩, fun plain => plain.2.2⟩
      · refine iff_of_false (fun read => ?_) fun plain => apart plain.2.1
        cases lexemes with
        | nil => exact apart (by simp)
        | cons next lexemes =>
          have glued : lexeme.apart next = false := by simpa using apart
          cases lexeme with
          | name name =>
            cases next with
            | minus => exact not_lexesAs_of_name_minus fits.spelled printed read
            | _ => contradiction
          | _ => contradiction
    · refine iff_of_false ?_ fun plain => readable plain.1
      exact not_lexesAs_of_unreadable fits (by simpa using readable) printed

end Lexeme

end LocationPath
