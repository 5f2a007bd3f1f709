import LocationPath.Token.Lexer

/-! # Spellings

How each lexeme may be written, and what must not stand behind it, since it would be read as a part
of it. The two tell exactly which token is found at a place of a text.

Main definitions: `Lexeme.Spelled` (the spellings of a lexeme), `Lexeme.StaysBefore` (a text leaves a
lexeme in front of it as it is) and `Scan.Finds` (the ways in which something is found). Main
results: `Scan.next_of_spelled` and `Scan.exists_spelled_of_next`. -/

namespace LocationPath

/-! ## Runs of characters -/

/-- A run of characters of a class ends in front of the first character outside of it. -/
theorem takeWhile_append_of_stop {class? : Char → Bool} {run behind : Text}
    (all : run.all class? = true) (stop : ∀ c ∈ behind.head?, class? c = false) :
    (run ++ behind).takeWhile class? = run := by
  rw [List.takeWhile_append_of_pos (List.all_eq_true.1 all)]
  cases behind with
  | nil => simp
  | cons c behind => simp [stop c rfl]

/-- Every text is the longest run of a class at its start, in front of nothing or of a character
outside of it. -/
theorem exists_run (class? : Char → Bool) (text : Text) : ∃ behind,
    text = text.takeWhile class? ++ behind ∧
      text.drop (text.takeWhile class?).length = behind ∧
        ∀ c ∈ behind.head?, class? c = false := by
  refine ⟨text.dropWhile class?, List.takeWhile_append_dropWhile.symm, ?_, fun c mem => ?_⟩
  · have dropped : (text.takeWhile class? ++ text.dropWhile class?).drop
        (text.takeWhile class?).length = text.dropWhile class? := List.drop_left
    rwa [List.takeWhile_append_dropWhile] at dropped
  · have stop := List.head?_dropWhile_not class? text
    rw [Option.mem_def.1 mem] at stop
    exact stop

namespace Literal

/-- A written literal is read back in front of anything but its mark. -/
theorem body_double {mark : Char} {behind : Text} (h : behind.head? ≠ some mark) (value : Text) :
    body mark (double mark value ++ mark :: behind) =
      some (value, (double mark value).length + 1) := by
  induction value with
  | nil =>
    cases behind with
    | nil => simp [double, body]
    | cons c behind =>
      have ne : c ≠ mark := by simpa using h
      simp [double, body, ne]
  | cons c value ih =>
    by_cases eq : c = mark
    · subst eq
      rw [double_cons_self, List.cons_append, List.cons_append, body, if_pos rfl, if_pos rfl, ih]
      rfl
    · rw [double_cons_of_ne eq, List.cons_append, body_cons_of_ne eq, ih]
      rfl

/-- What is read of a literal is its value as it is written, up to a mark. If the mark stands there
twice, no literal is closed behind it. -/
theorem exists_of_body {mark : Char} {text value : Text} {used : Nat}
    (h : body mark text = some (value, used)) : ∃ behind,
      text = double mark value ++ mark :: behind ∧ used = (double mark value).length + 1 ∧
        ∀ after, behind = mark :: after → body mark after = none := by
  fun_induction body mark text generalizing value used with
  | case1 => simp at h
  | case2 =>
    simp only [Option.some.injEq, Prod.mk.injEq] at h
    obtain ⟨rfl, rfl⟩ := h
    exact ⟨[], rfl, rfl, by simp⟩
  | case3 after inner inner_used found ih =>
    simp only [Option.some.injEq, Prod.mk.injEq] at h
    obtain ⟨rfl, rfl⟩ := h
    obtain ⟨behind, rfl, rfl, last⟩ := ih found
    refine ⟨behind, ?_, ?_, last⟩ <;> simp [double]
  -- Two marks with no closed literal behind them: the first mark is taken as the end.
  | case4 after found ih =>
    simp only [Option.some.injEq, Prod.mk.injEq] at h
    obtain ⟨rfl, rfl⟩ := h
    refine ⟨_, rfl, rfl, fun behind eq => ?_⟩
    rw [List.cons.injEq] at eq
    rw [← eq.2, found]
  | case5 d after ne =>
    simp only [Option.some.injEq, Prod.mk.injEq] at h
    obtain ⟨rfl, rfl⟩ := h
    refine ⟨_, rfl, rfl, fun behind eq => ?_⟩
    rw [List.cons.injEq] at eq
    exact absurd eq.1 ne
  | case6 c rest ne ih =>
    obtain ⟨⟨inner, inner_used⟩, found, eq⟩ := Option.map_eq_some_iff.1 h
    obtain ⟨rfl, rfl⟩ := Prod.mk.inj eq
    obtain ⟨behind, rfl, rfl, last⟩ := ih found
    refine ⟨behind, ?_, ?_, last⟩ <;> simp [double, ne]

end Literal

/-! ## Spellings of lexemes -/

namespace Lexeme

/-- The lexemes that are written with fixed symbols: the first character and the others. -/
def symbols : List (Lexeme × Char × Text) :=
  [(.slash, '/', []), (.slashes, '/', ['/']), (.dot, '.', []), (.dots, '.', ['.']),
    (.colon, ':', []), (.axisMark, ':', [':']), (.notEqual, '!', ['=']), (.less, '<', []),
    (.lessEqual, '<', ['=']), (.greater, '>', []), (.greaterEqual, '>', ['=']), (.equal, '=', []),
    (.atSign, '@', []), (.openParen, '(', []), (.closeParen, ')', []), (.openBracket, '[', []),
    (.closeBracket, ']', []), (.bar, '|', []), (.plus, '+', []), (.minus, '-', []),
    (.comma, ',', []), (.dollar, '$', [])]

/-- A lexeme may be written, after an operand or elsewhere, with a first character and others. -/
inductive Spelled (afterOperand : Bool) : Lexeme → Char → Text → Prop where
  | literal {mark : Char} (quotation : mark = '"' ∨ mark = '\'') (value : Text) :
    Spelled afterOperand (.literal value) mark (Literal.double mark value ++ [mark])
  | pointed {c : Char} {whole fraction : Text} (first : isDigit c = true)
    (whole_digits : whole.all isDigit = true) (fraction_digits : fraction.all isDigit = true) :
    Spelled afterOperand (.pointed (c :: whole) fraction) c (whole ++ '.' :: fraction)
  | fraction {fraction : Text} (ne : fraction ≠ []) (digits : fraction.all isDigit = true) :
    Spelled afterOperand (.pointed [] fraction) '.' fraction
  | integer {c : Char} {more : Text} (first : isDigit c = true) (digits : more.all isDigit = true)
    (short : more.length < maxIntegerDigits) :
    Spelled afterOperand (.integer (Text.numeral (c :: more))) c more
  | name {c : Char} {more : Text} (first : isNameStart c = true) (no_digit : isDigit c = false)
    (chars : more.all isNameChar = true)
    (no_word : afterOperand = true → OperatorWord.ofName? (c :: more) = none) :
    Spelled afterOperand (.name (c :: more)) c more
  | nodeType {c : Char} {more : Text} (first : isNameStart c = true) (no_digit : isDigit c = false)
    (chars : more.all isNameChar = true)
    (no_word : afterOperand = true → OperatorWord.ofName? (c :: more) = none)
    (mem : c :: more ∈ nodeTypeNames) : Spelled afterOperand (.nodeType (c :: more)) c more
  | word {c : Char} {more : Text} {word : OperatorWord} (first : isNameStart c = true)
    (no_digit : isDigit c = false) (chars : more.all isNameChar = true)
    (after : afterOperand = true) (spelling : OperatorWord.ofName? (c :: more) = some word) :
    Spelled afterOperand (.word word) c more
  | times (after : afterOperand = true) : Spelled afterOperand .times '*' []
  | star (after : afterOperand = false) : Spelled afterOperand .star '*' []
  | symbol {lexeme : Lexeme} {c : Char} {more : Text} (mem : (lexeme, c, more) ∈ symbols) :
    Spelled afterOperand lexeme c more

/-- A name is spelled as it is. -/
theorem Spelled.name_eq {afterOperand : Bool} {name : Text} {c : Char} {more : Text}
    (h : (Lexeme.name name).Spelled afterOperand c more) : name = c :: more := by
  cases h with
  | name => rfl
  | symbol mem => simp [symbols] at mem

/-- A text leaves a lexeme, of which the first character is given, in front of it as it is. -/
def StaysBefore (first : Char) (behind : Text) : Lexeme → Prop
  | .literal _ => behind.head? ≠ some first
  | .float _ => ∀ c ∈ behind.head?, isDigit c = false
  | .integer _ => ∀ c ∈ behind.head?, isDigit c = false ∧ c ≠ '.'
  | .name text =>
    (∀ c ∈ behind.head?, isNameChar c = false) ∧ (text ∈ nodeTypeNames → opensParen behind = false)
  | .nodeType _ => (∀ c ∈ behind.head?, isNameChar c = false) ∧ opensParen behind = true
  | .word _ => ∀ c ∈ behind.head?, isNameChar c = false
  | .slash => behind.head? ≠ some '/'
  | .dot => ∀ c ∈ behind.head?, isDigit c = false ∧ c ≠ '.'
  | .colon => behind.head? ≠ some ':'
  | .less | .greater => behind.head? ≠ some '='
  | _ => True

/-- The first characters of symbols are no digits and start no names or literals. -/
theorem of_mem_symbols : ∀ symbol ∈ symbols, isDigit symbol.2.1 = false ∧
    isNameStart symbol.2.1 = false ∧ symbol.2.1 ≠ '"' ∧ symbol.2.1 ≠ '\'' ∧ symbol.2.1 ≠ '*' ∧
      isLayout symbol.2.1 = false := by
  decide +kernel

/-- A symbol is written in one way only. -/
theorem Spelled.eq_symbol {afterOperand : Bool} {lexeme : Lexeme} {c d : Char} {more more' : Text}
    (h : lexeme.Spelled afterOperand c more) (mem : (lexeme, d, more') ∈ symbols) :
    c = d ∧ more = more' := by
  have unique : ∀ symbol ∈ symbols, ∀ other ∈ symbols,
      symbol.1 = other.1 → symbol.2 = other.2 := by
    decide +kernel
  cases h with
  | symbol mem' => exact Prod.mk.inj (unique _ mem' _ mem rfl)
  | _ => simp [symbols, Lexeme.pointed] at mem

/-- Only dots start with a point. -/
theorem eq_dot_of_mem_symbols : ∀ symbol ∈ symbols, symbol.2.1 = '.' →
    symbol.1 = .dot ∧ symbol.2.1 = '.' ∧ symbol.2.2 = [] ∨
      symbol.1 = .dots ∧ symbol.2.1 = '.' ∧ symbol.2.2 = ['.'] := by
  decide +kernel

end Lexeme

namespace Scan

/-! ## Finding a spelled lexeme -/

/-- A number with digits in front of its point is found. -/
theorem number?_pointed {c : Char} {whole fraction behind : Text} (first : isDigit c = true)
    (whole_digits : whole.all isDigit = true) (fraction_digits : fraction.all isDigit = true)
    (stays : ∀ c ∈ behind.head?, isDigit c = false) :
    number? c (whole ++ '.' :: fraction ++ behind) =
      some (.lexeme (.pointed (c :: whole) fraction) (whole ++ '.' :: fraction).length) := by
  have whole_run : (whole ++ '.' :: (fraction ++ behind)).takeWhile isDigit = whole :=
    takeWhile_append_of_stop whole_digits fun d mem => by
      obtain rfl := Option.mem_some.1 mem
      decide
  rw [number?, if_pos first, List.append_assoc, List.cons_append]
  simp only [whole_run, List.drop_left, takeWhile_append_of_stop fraction_digits stays]
  rw [List.length_append, List.length_cons, Nat.add_assoc, Nat.add_comm 1]

/-- A number that starts with its point is found. -/
theorem number?_fraction {fraction behind : Text} (ne : fraction ≠ [])
    (digits : fraction.all isDigit = true) (stays : ∀ c ∈ behind.head?, isDigit c = false) :
    number? '.' (fraction ++ behind) =
      some (.lexeme (.pointed [] fraction) fraction.length) := by
  rw [number?, if_neg (by decide), if_pos rfl]
  simp only [takeWhile_append_of_stop digits stays]
  rw [if_neg (by simpa using ne)]

/-- A number without a point is found. -/
theorem number?_integer {c : Char} {more behind : Text} (first : isDigit c = true)
    (digits : more.all isDigit = true) (short : more.length < maxIntegerDigits)
    (stays : ∀ c ∈ behind.head?, isDigit c = false ∧ c ≠ '.') :
    number? c (more ++ behind) = some (.lexeme (.integer (Text.numeral (c :: more))) more.length) := by
  have run := takeWhile_append_of_stop digits fun c mem => (stays c mem).1
  rw [number?, if_pos first]
  simp only [run, List.drop_left]
  cases behind with
  | nil => simp [short]
  | cons d behind =>
    have ne := (stays d rfl).2
    split
    · rename_i after eq
      rw [List.cons.injEq] at eq
      exact absurd eq.1 ne
    · rw [if_pos short]

/-- No number starts with what is neither a digit nor a point. -/
theorem number?_eq_none {c : Char} (rest : Text) (no_digit : isDigit c = false) (ne : c ≠ '.') :
    number? c rest = none := by
  rw [number?, if_neg (by simp [no_digit]), if_neg ne]

/-- Where a digit stands the rules of numbers decide. -/
theorem next_of_isDigit {afterOperand : Bool} {c : Char} {rest : Text} {found : Scan}
    (first : isDigit c = true) (number : number? c rest = some found) :
    next afterOperand c rest = found := by
  have no_mark : ¬(c = '"' ∨ c = '\'') := by
    rintro (rfl | rfl) <;> revert first <;> decide
  rw [next, if_neg (by simpa using no_mark), number]

/-- What a lexeme is found as behind its first character, where a name starts. -/
theorem next_of_isNameStart {afterOperand : Bool} {c : Char} {more behind : Text}
    (first : isNameStart c = true) (no_digit : isDigit c = false)
    (chars : more.all isNameChar = true) (stays : ∀ c ∈ behind.head?, isNameChar c = false) :
    next afterOperand c (more ++ behind) =
      .lexeme (.ofName afterOperand (c :: more) behind) more.length := by
  have no_mark : ¬(c = '"' ∨ c = '\'') := by
    rintro (rfl | rfl) <;> revert first <;> decide
  have no_point : c ≠ '.' := by
    rintro rfl
    revert first
    decide
  rw [next, if_neg (by simpa using no_mark), number?_eq_none _ no_digit no_point]
  simp only [if_pos first, takeWhile_append_of_stop chars stays, List.drop_left]

/-- No number starts with a symbol. -/
theorem number?_of_mem_symbols {lexeme : Lexeme} {c : Char} {more behind : Text}
    (mem : (lexeme, c, more) ∈ Lexeme.symbols) (stays : lexeme.StaysBefore c behind) :
    number? c (more ++ behind) = none := by
  by_cases point : c = '.'
  · subst point
    -- A single dot must not stand before a digit, and the double dot goes on with a dot.
    have no_digit : ∀ c ∈ (more ++ behind).head?, isDigit c = false := by
      intro c head
      obtain ⟨rfl, -, rfl⟩ | ⟨rfl, -, rfl⟩ := Lexeme.eq_dot_of_mem_symbols _ mem rfl
      · exact (stays c head).1
      · obtain rfl := Option.mem_some.1 head
        decide
    have empty : (more ++ behind).takeWhile isDigit = [] :=
      @takeWhile_append_of_stop isDigit [] _ rfl no_digit
    rw [number?, if_neg (by decide), if_pos rfl, empty]
    rfl
  · exact number?_eq_none _ (Lexeme.of_mem_symbols _ mem).1 point

/-- A symbol is found. -/
theorem symbol?_of_mem_symbols {lexeme : Lexeme} {c : Char} {more behind : Text}
    (mem : (lexeme, c, more) ∈ Lexeme.symbols) (stays : lexeme.StaysBefore c behind) :
    Lexeme.symbol? c (more ++ behind).head? = some (lexeme, more.length) := by
  simp only [Lexeme.symbols, List.mem_cons, Prod.mk.injEq, List.not_mem_nil, or_false] at mem
  rcases mem with ⟨rfl, rfl, rfl⟩ | ⟨rfl, rfl, rfl⟩ | ⟨rfl, rfl, rfl⟩ | ⟨rfl, rfl, rfl⟩ |
    ⟨rfl, rfl, rfl⟩ | ⟨rfl, rfl, rfl⟩ | ⟨rfl, rfl, rfl⟩ | ⟨rfl, rfl, rfl⟩ | ⟨rfl, rfl, rfl⟩ |
    ⟨rfl, rfl, rfl⟩ | ⟨rfl, rfl, rfl⟩ | ⟨rfl, rfl, rfl⟩ | ⟨rfl, rfl, rfl⟩ | ⟨rfl, rfl, rfl⟩ |
    ⟨rfl, rfl, rfl⟩ | ⟨rfl, rfl, rfl⟩ | ⟨rfl, rfl, rfl⟩ | ⟨rfl, rfl, rfl⟩ | ⟨rfl, rfl, rfl⟩ |
    ⟨rfl, rfl, rfl⟩ | ⟨rfl, rfl, rfl⟩ | ⟨rfl, rfl, rfl⟩ <;>
    simp_all [Lexeme.symbol?, Lexeme.StaysBefore]
  exact fun point => (stays '.' point).2 rfl

/-- What is no operator word where it stands is a name or a node type. -/
theorem ofName_of_no_word {afterOperand : Bool} {name : Text} (behind : Text)
    (no_word : afterOperand = true → OperatorWord.ofName? name = none) :
    Lexeme.ofName afterOperand name behind =
      if nodeTypeNames.contains name && opensParen behind then .nodeType name else .name name := by
  have nothing : (if afterOperand then OperatorWord.ofName? name else none) = none := by
    split
    · exact no_word (by assumption)
    · rfl
  rw [Lexeme.ofName, nothing]

/-- **A spelled lexeme is found** where what stands behind it leaves it as it is. -/
theorem next_of_spelled {afterOperand : Bool} {lexeme : Lexeme} {c : Char} {more behind : Text}
    (h : lexeme.Spelled afterOperand c more) (stays : lexeme.StaysBefore c behind) :
    next afterOperand c (more ++ behind) = .lexeme lexeme more.length := by
  cases h with
  | literal quotation value =>
    rw [next, if_pos (by simpa using quotation), List.append_assoc, List.singleton_append,
      Literal.body_double stays]
    simp
  | pointed first whole_digits fraction_digits =>
    exact next_of_isDigit first (number?_pointed first whole_digits fraction_digits stays)
  | fraction ne digits =>
    rw [next, if_neg (by decide), number?_fraction ne digits stays]
  | integer first digits short =>
    exact next_of_isDigit first (number?_integer first digits short stays)
  | name first no_digit chars no_word =>
    rw [next_of_isNameStart first no_digit chars stays.1, ofName_of_no_word _ no_word, if_neg]
    simpa using stays.2
  | nodeType first no_digit chars no_word mem =>
    rw [next_of_isNameStart first no_digit chars stays.1, ofName_of_no_word _ no_word, if_pos]
    simp [mem, stays.2]
  | word first no_digit chars after spelling =>
    rw [next_of_isNameStart first no_digit chars stays, Lexeme.ofName, if_pos after, spelling]
  | times after => rw [after]; rfl
  | star after => rw [after]; rfl
  | symbol mem =>
    obtain ⟨no_digit, no_name, no_quotation, no_mark, no_star, -⟩ := Lexeme.of_mem_symbols _ mem
    simp only at no_digit no_name no_quotation no_mark no_star
    rw [next, if_neg (by simp [no_quotation, no_mark]), number?_of_mem_symbols mem stays]
    simp only [no_name, no_star, symbol?_of_mem_symbols mem stays]
    rfl

/-! ## What is found is spelled -/

/-- What the rules of numbers find at a character in front of a text. -/
inductive FindsNumber (c : Char) (rest : Text) : Option Scan → Prop where
  /-- Digits with a point behind them, and more digits behind the point. -/
  | pointed {after : Text} (first : isDigit c = true)
    (point : rest.drop (rest.takeWhile isDigit).length = '.' :: after) :
    FindsNumber c rest (some (.lexeme
      (.pointed (c :: rest.takeWhile isDigit) (after.takeWhile isDigit))
      ((rest.takeWhile isDigit).length + 1 + (after.takeWhile isDigit).length)))
  /-- Digits without a point behind them. -/
  | integer (first : isDigit c = true)
    (no_point : ∀ after, rest.drop (rest.takeWhile isDigit).length ≠ '.' :: after)
    (short : (rest.takeWhile isDigit).length < maxIntegerDigits) :
    FindsNumber c rest (some (.lexeme (.integer (Text.numeral (c :: rest.takeWhile isDigit)))
      (rest.takeWhile isDigit).length))
  /-- Too many digits without a point behind them. -/
  | tooLong (first : isDigit c = true)
    (long : maxIntegerDigits ≤ (rest.takeWhile isDigit).length) : FindsNumber c rest (some .tooLong)
  /-- A point with digits behind it. -/
  | fraction (point : c = '.') (ne : rest.takeWhile isDigit ≠ []) :
    FindsNumber c rest (some (.lexeme (.pointed [] (rest.takeWhile isDigit))
      (rest.takeWhile isDigit).length))
  /-- No digit, and no point in front of one. -/
  | nothing (no_digit : isDigit c = false) (no_fraction : c = '.' → rest.takeWhile isDigit = []) :
    FindsNumber c rest none

/-- The rules of numbers find what they say. -/
theorem findsNumber (c : Char) (rest : Text) : FindsNumber c rest (number? c rest) := by
  rw [number?]
  split
  · rename_i first
    dsimp only
    split
    · rename_i point
      exact .pointed first point
    · rename_i no_point
      split
      · rename_i short
        exact .integer first no_point short
      · rename_i long
        exact .tooLong first (Nat.le_of_not_lt long)
  · rename_i no_digit
    split
    · rename_i point
      dsimp only
      split
      · rename_i empty
        exact .nothing (by simpa using no_digit) fun _ => List.isEmpty_iff.1 empty
      · rename_i ne
        exact .fraction point (by simpa using ne)
    · rename_i no_point
      exact .nothing (by simpa using no_digit) fun point => absurd point no_point

/-- What is found at a character in front of a text, after an operand or elsewhere. -/
inductive Finds (afterOperand : Bool) (c : Char) (rest : Text) : Scan → Prop where
  /-- A literal, up to its own mark. -/
  | literal {value : Text} {used : Nat} (quotation : c = '"' ∨ c = '\'')
    (closed : Literal.body c rest = some (value, used)) :
    Finds afterOperand c rest (.lexeme (.literal value) used)
  /-- A mark of a literal that is not closed. -/
  | openLiteral (quotation : c = '"' ∨ c = '\'') (not_closed : Literal.body c rest = none) :
    Finds afterOperand c rest .unknown
  /-- A number, which may be too long. -/
  | number {found : Scan} (number : number? c rest = some found) : Finds afterOperand c rest found
  /-- A name, which may be an operator word or a node type. -/
  | name (no_number : number? c rest = none) (first : isNameStart c = true) :
    Finds afterOperand c rest (.lexeme (.ofName afterOperand (c :: rest.takeWhile isNameChar)
      (rest.drop (rest.takeWhile isNameChar).length)) (rest.takeWhile isNameChar).length)
  /-- A star. -/
  | star (star : c = '*') :
    Finds afterOperand c rest (.lexeme (if afterOperand then .times else .star) 0)
  /-- A symbol. -/
  | symbol {lexeme : Lexeme} {used : Nat} (no_number : number? c rest = none)
    (symbol : Lexeme.symbol? c rest.head? = some (lexeme, used)) :
    Finds afterOperand c rest (.lexeme lexeme used)
  /-- None of these. -/
  | nothing (no_quotation : ¬(c = '"' ∨ c = '\'')) (no_number : number? c rest = none)
    (no_name : isNameStart c = false) (no_star : c ≠ '*')
    (no_symbol : Lexeme.symbol? c rest.head? = none) : Finds afterOperand c rest .unknown

/-- What is found is found in one of these ways. -/
theorem finds (afterOperand : Bool) (c : Char) (rest : Text) :
    Finds afterOperand c rest (next afterOperand c rest) := by
  rw [next]
  split
  · rename_i quotation
    rw [Bool.or_eq_true, decide_eq_true_eq, decide_eq_true_eq] at quotation
    split
    · rename_i value used closed
      exact .literal quotation closed
    · rename_i not_closed
      exact .openLiteral quotation not_closed
  · rename_i no_quotation
    rw [Bool.or_eq_true, decide_eq_true_eq, decide_eq_true_eq] at no_quotation
    split
    · rename_i number
      exact .number number
    · rename_i no_number
      split
      · rename_i first
        exact .name no_number first
      · rename_i no_name
        split
        · rename_i star
          exact .star star
        · rename_i no_star
          split
          · rename_i symbol
            exact .symbol no_number symbol
          · rename_i no_symbol
            exact .nothing no_quotation no_number (by simpa using no_name) no_star no_symbol

/-- Where no number starts there is no digit, and no point in front of a digit. -/
theorem of_number?_eq_none {c : Char} {rest : Text} (h : number? c rest = none) :
    isDigit c = false ∧ (c = '.' → ∀ d ∈ rest.head?, isDigit d = false) := by
  cases h ▸ findsNumber c rest with
  | nothing no_digit no_fraction =>
    refine ⟨no_digit, fun point d mem => ?_⟩
    obtain ⟨behind, rfl⟩ := List.head?_eq_some_iff.1 mem
    have empty := no_fraction point
    rw [List.takeWhile_cons] at empty
    split at empty
    · contradiction
    · rename_i no_digit
      simpa using no_digit

/-- A number that is found is spelled. -/
theorem exists_spelled_of_number? {afterOperand : Bool} {lexeme : Lexeme} {c : Char} {rest : Text}
    {used : Nat} (h : number? c rest = some (.lexeme lexeme used)) : ∃ more behind,
      rest = more ++ behind ∧ more.length = used ∧ lexeme.Spelled afterOperand c more ∧
        lexeme.StaysBefore c behind := by
  obtain ⟨behind, eq, dropped, stop⟩ := exists_run isDigit rest
  cases h ▸ findsNumber c rest with
  | @pointed after first point =>
    obtain ⟨last, after_eq, -, stop⟩ := exists_run isDigit after
    refine ⟨rest.takeWhile isDigit ++ '.' :: after.takeWhile isDigit, last, ?_, ?_,
      .pointed first List.all_takeWhile List.all_takeWhile, stop⟩
    · rw [List.append_assoc, List.cons_append, ← after_eq, ← point, dropped]
      exact eq
    · rw [List.length_append, List.length_cons, Nat.add_assoc, Nat.add_comm 1]
  -- A point behind the digits would have been read with them.
  | integer first no_point short =>
    refine ⟨_, behind, eq, rfl, .integer first List.all_takeWhile short, fun d mem =>
      ⟨stop d mem, ?_⟩⟩
    rintro rfl
    obtain ⟨after, behind_eq⟩ := List.head?_eq_some_iff.1 mem
    exact no_point after (dropped.trans behind_eq)
  | fraction point ne =>
    subst point
    exact ⟨_, behind, eq, rfl, .fraction ne List.all_takeWhile, stop⟩

/-- What is found where a name starts is spelled. -/
theorem exists_spelled_of_isNameStart {afterOperand : Bool} {lexeme : Lexeme} {c : Char}
    {rest : Text} (first : isNameStart c = true) (no_digit : isDigit c = false)
    (h : Lexeme.ofName afterOperand (c :: rest.takeWhile isNameChar)
      (rest.drop (rest.takeWhile isNameChar).length) = lexeme) : ∃ behind,
      rest = rest.takeWhile isNameChar ++ behind ∧
        lexeme.Spelled afterOperand c (rest.takeWhile isNameChar) ∧
        lexeme.StaysBefore c behind := by
  obtain ⟨behind, eq, dropped, stop⟩ := exists_run isNameChar rest
  refine ⟨behind, eq, ?_⟩
  rw [dropped, Lexeme.ofName] at h
  split at h
  · rename_i word found
    split at found
    · rename_i after
      subst h
      exact ⟨.word first no_digit List.all_takeWhile after found, stop⟩
    · simp at found
  · rename_i no_word
    have no_word : afterOperand = true →
        OperatorWord.ofName? (c :: rest.takeWhile isNameChar) = none := by
      intro after
      rwa [if_pos after] at no_word
    split at h
    · rename_i type
      subst h
      rw [Bool.and_eq_true, List.contains_iff_mem] at type
      exact ⟨.nodeType first no_digit List.all_takeWhile no_word type.1, stop, type.2⟩
    · rename_i no_type
      subst h
      refine ⟨.name first no_digit List.all_takeWhile no_word, stop, fun mem => ?_⟩
      rw [Bool.and_eq_true, List.contains_iff_mem] at no_type
      simpa [mem] using no_type

/-- A symbol that is found is spelled, provided that no number has been found. -/
theorem exists_spelled_of_symbol? {afterOperand : Bool} {lexeme : Lexeme} {c : Char} {rest : Text}
    {used : Nat} (no_number : number? c rest = none)
    (h : Lexeme.symbol? c rest.head? = some (lexeme, used)) : ∃ more behind,
      rest = more ++ behind ∧ more.length = used ∧ lexeme.Spelled afterOperand c more ∧
        lexeme.StaysBefore c behind := by
  -- A symbol of two characters is told from its first one by the second.
  have longer : ∀ {d : Char}, rest.head? = some d → (lexeme, c, [d]) ∈ Lexeme.symbols →
      (∀ behind, lexeme.StaysBefore c behind) → 1 = used → ∃ more behind,
        rest = more ++ behind ∧ more.length = used ∧ lexeme.Spelled afterOperand c more ∧
          lexeme.StaysBefore c behind := by
    intro d head mem stays eq
    obtain ⟨behind, rfl⟩ := List.head?_eq_some_iff.1 head
    exact ⟨[d], behind, rfl, eq, .symbol mem, stays behind⟩
  have alone : (lexeme, c, []) ∈ Lexeme.symbols → lexeme.StaysBefore c rest → 0 = used →
      ∃ more behind, rest = more ++ behind ∧ more.length = used ∧
        lexeme.Spelled afterOperand c more ∧ lexeme.StaysBefore c behind :=
    fun mem stays eq => ⟨[], rest, rfl, eq, .symbol mem, stays⟩
  have no_digit := (of_number?_eq_none no_number).2
  unfold Lexeme.symbol? at h
  split at h <;> (try split at h) <;>
    simp only [Option.some.injEq, Prod.mk.injEq, reduceCtorEq] at h
  all_goals obtain ⟨rfl, rfl⟩ := h
  all_goals first
    | exact longer (by assumption) (by simp [Lexeme.symbols]) (fun _ => trivial) rfl
    | exact alone (by simp [Lexeme.symbols]) (by assumption) rfl
    | exact alone (by simp [Lexeme.symbols]) trivial rfl
    | skip
  rename_i no_point
  refine alone (by simp [Lexeme.symbols]) (fun c mem => ⟨no_digit rfl c mem, ?_⟩) rfl
  rintro rfl
  exact no_point mem

/-- **What is found is spelled**, and what stands behind it leaves it as it is; but a literal may
stand in front of its own mark where the mark closes no further literal. -/
theorem exists_spelled_of_next {afterOperand : Bool} {lexeme : Lexeme} {c : Char} {rest : Text}
    {used : Nat} (h : next afterOperand c rest = .lexeme lexeme used) : ∃ more behind,
      rest = more ++ behind ∧ more.length = used ∧ lexeme.Spelled afterOperand c more ∧
        (lexeme.StaysBefore c behind ∨
          ∃ after, behind = c :: after ∧ ∀ again, next again c after = .unknown) := by
  cases h ▸ finds afterOperand c rest with
  | literal quotation closed =>
    obtain ⟨behind, rfl, rfl, last⟩ := Literal.exists_of_body closed
    refine ⟨Literal.double c _ ++ [c], behind, by simp, by simp, .literal quotation _, ?_⟩
    -- With its own mark behind it the literal could go on, but then it would not be closed.
    by_cases mark : behind.head? = some c
    · obtain ⟨after, rfl⟩ := List.head?_eq_some_iff.1 mark
      refine .inr ⟨after, rfl, fun again => ?_⟩
      rw [next, if_pos (by simpa using quotation), last after rfl]
    · exact .inl mark
  | number number =>
    obtain ⟨more, behind, eq, length, spelled, stays⟩ := exists_spelled_of_number? number
    exact ⟨more, behind, eq, length, spelled, .inl stays⟩
  | name no_number first =>
    -- Numbers go before names, and some digits are name characters as well.
    have no_digit := (of_number?_eq_none no_number).1
    obtain ⟨behind, eq, spelled, stays⟩ := exists_spelled_of_isNameStart first no_digit rfl
    exact ⟨_, behind, eq, rfl, spelled, .inl stays⟩
  | star star =>
    subst star
    refine ⟨[], rest, rfl, rfl, ?_⟩
    cases afterOperand with
    | false => exact ⟨.star rfl, .inl trivial⟩
    | true => exact ⟨.times rfl, .inl trivial⟩
  | symbol no_number symbol =>
    obtain ⟨more, behind, eq, length, spelled, stays⟩ :=
      exists_spelled_of_symbol? no_number symbol
    exact ⟨more, behind, eq, length, spelled, .inl stays⟩

end Scan

end LocationPath
