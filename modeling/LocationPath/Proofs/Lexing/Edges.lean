import LocationPath.Proofs.Lexing.Tokenized
import LocationPath.Text.Blank

/-! # The first and the last characters of tokens

Tokens neither start nor end with white space, except for the Ogham space, which is counted among
the characters of names. So a text from the start of a token up to the end of another one has
nothing to trim.

Main definitions: `oghamSpace`, `edgeMarks`. Main results: `Tokenized.slice` (a text between tokens),
`Tokenized.exists_spelled` and `Tokenized.trim_eq`. -/

namespace LocationPath

/-- The white space that a name can hold. -/
def oghamSpace : Char := Char.ofNat 0x1680

/-- The characters other than digits and those of names that a lexeme can start or end with. -/
def edgeMarks : List Char :=
  ['"', '\'', '.', '*', '/', ':', '!', '<', '=', '>', '@', '(', ')', '[', ']', '|', '+', '-', ',',
    '$']

/-- Whether a lexeme can start or end with a character. -/
def isEdge (c : Char) : Bool := isDigit c || isNameChar c || edgeMarks.contains c

/-! ## White space -/

/-- A digit is one of ten characters in a row. -/
theorem exists_zeroDigit {c : Char} (h : isDigit c = true) :
    ∃ origin ∈ zeroDigits, origin ≤ c.toNat ∧ c.toNat < origin + 10 := by
  obtain ⟨value, found⟩ := Option.isSome_iff_exists.1 h
  obtain ⟨origin, found, -⟩ := Option.map_eq_some_iff.1 found
  have near := List.find?_some found
  simp only [Bool.and_eq_true, decide_eq_true_eq] at near
  exact ⟨origin, List.mem_of_find?_eq_some found, near⟩

/-- Digits are not white space. -/
theorem isWhiteSpace_of_isDigit {c : Char} (h : isDigit c = true) : isWhiteSpace c = false := by
  have apart : ∀ origin ∈ zeroDigits, ∀ range ∈ whiteSpaceRanges,
      origin + 9 < range.1 ∨ range.2 < origin := by decide +kernel
  obtain ⟨origin, mem, near⟩ := exists_zeroDigit h
  rw [isWhiteSpace, Bool.eq_false_iff]
  intro white
  obtain ⟨range, range_mem, lower, upper⟩ := (inRanges_iff _ _).1 white
  have := apart origin mem range range_mem
  omega

/-- The only white space in names is the Ogham space. -/
theorem eq_oghamSpace_of_isNameChar {c : Char} (h : isNameChar c = true)
    (white : isWhiteSpace c = true) : c = oghamSpace := by
  -- The ranges are compared with one another, not their characters.
  have apart : ∀ range ∈ nameStartRanges ++ nameFurtherRanges, ∀ blank ∈ whiteSpaceRanges,
      range.2 < blank.1 ∨ blank.2 < range.1 ∨ blank = (0x1680, 0x1680) := by decide +kernel
  obtain ⟨blank, blank_mem, lower, upper⟩ := (inRanges_iff _ _).1 white
  have named : ∃ range ∈ nameStartRanges ++ nameFurtherRanges,
      range.1 ≤ c.toNat ∧ c.toNat ≤ range.2 := by
    rw [isNameChar, Bool.or_eq_true, isNameStart, inRanges_iff, inRanges_iff] at h
    obtain ⟨range, mem, bounds⟩ | ⟨range, mem, bounds⟩ := h
    · exact ⟨range, List.mem_append_left _ mem, bounds⟩
    · exact ⟨range, List.mem_append_right _ mem, bounds⟩
  obtain ⟨range, mem, bounds⟩ := named
  obtain after | before | rfl := apart range mem blank blank_mem
  · omega
  · omega
  · dsimp only at lower upper
    have code : c.toNat = 0x1680 := by omega
    rw [← Char.ofNat_toNat c, code, oghamSpace]

/-- What a lexeme can start or end with is not white space but for the Ogham space. -/
theorem isWhiteSpace_of_isEdge {c : Char} (h : isEdge c = true) (ne : c ≠ oghamSpace) :
    isWhiteSpace c = false := by
  simp only [isEdge, Bool.or_eq_true, or_assoc] at h
  obtain digit | named | mark := h
  · exact isWhiteSpace_of_isDigit digit
  · cases white : isWhiteSpace c with
    | false => rfl
    | true => exact absurd (eq_oghamSpace_of_isNameChar named white) ne
  · have marks : edgeMarks.all (! isWhiteSpace ·) = true := by decide +kernel
    simpa using List.all_eq_true.1 marks c (List.contains_iff_mem.1 mark)

/-! ## The edges of a lexeme -/

/-- Digits stand at the edges of lexemes. -/
theorem isEdge_of_isDigit {c : Char} (h : isDigit c = true) : isEdge c = true := by
  simp [isEdge, h]

/-- The characters of names stand at the edges of lexemes. -/
theorem isEdge_of_isNameChar {c : Char} (h : isNameChar c = true) : isEdge c = true := by
  simp [isEdge, h]

/-- If all characters of a text can stand at an edge, so can its last one. -/
theorem isEdge_of_getLast? {text : Text} {holds : Char → Bool}
    (edges : ∀ {c : Char}, holds c = true → isEdge c = true) (all : text.all holds = true) :
    ∀ d ∈ text.getLast?, isEdge d = true :=
  fun d mem => edges (List.all_eq_true.1 all d (List.mem_of_getLast? mem))

/-- The last element of a list is at a place of it or behind. -/
theorem eq_or_mem_of_mem_getLast? {α : Type} {front more : List α} {a b : α}
    (mem : b ∈ (front ++ a :: more).getLast?) : b = a ∨ b ∈ more.getLast? := by
  rw [List.getLast?_append, List.getLast?_cons, Option.some_or] at mem
  obtain rfl := Option.mem_some.1 mem
  cases more.getLast? with
  | none => exact .inl rfl
  | some c => exact .inr rfl

/-- The symbols start and end with marks. -/
theorem Lexeme.isEdge_of_mem_symbols : ∀ symbol ∈ symbols,
    isEdge symbol.2.1 = true ∧ symbol.2.2.all isEdge = true := by
  decide +kernel

/-- A lexeme starts and ends with characters that it can start or end with. -/
theorem Lexeme.Spelled.isEdge {afterOperand : Bool} {lexeme : Lexeme} {c : Char} {more : Text}
    (h : lexeme.Spelled afterOperand c more) :
    isEdge c = true ∧ ∀ d ∈ more.getLast?, isEdge d = true := by
  cases h with
  | literal quotation value =>
    have mark : LocationPath.isEdge c = true := by
      obtain rfl | rfl := quotation <;> decide +kernel
    refine ⟨mark, fun d mem => ?_⟩
    rw [List.getLast?_concat] at mem
    exact Option.mem_some.1 mem ▸ mark
  | @pointed _ whole fraction first whole_digits fraction_digits =>
    -- The number ends with its fraction, or with the point when the fraction is empty.
    refine ⟨isEdge_of_isDigit first, fun d mem => ?_⟩
    obtain rfl | mem := eq_or_mem_of_mem_getLast? mem
    · decide +kernel
    · exact isEdge_of_getLast? isEdge_of_isDigit fraction_digits d mem
  | fraction ne digits =>
    exact ⟨by decide +kernel, isEdge_of_getLast? isEdge_of_isDigit digits⟩
  | integer first digits =>
    exact ⟨isEdge_of_isDigit first, isEdge_of_getLast? isEdge_of_isDigit digits⟩
  | name first _ chars | nodeType first _ chars | word first _ chars =>
    exact ⟨isEdge_of_isNameChar (isNameChar_of_isNameStart first),
      isEdge_of_getLast? isEdge_of_isNameChar chars⟩
  | times | star => exact ⟨by decide +kernel, by simp⟩
  | symbol mem =>
    have edges := isEdge_of_mem_symbols _ mem
    exact ⟨edges.1, isEdge_of_getLast? id edges.2⟩

/-! ## Texts of tokens -/

/-- A text from one position up to another is the tokens between them. The last of these must not be
the name of a node type. -/
theorem Tokenized.slice {afterOperand : Bool} {text : Text} {front middle back : List Token}
    (h : Tokenized afterOperand 0 text (front ++ (middle ++ back))) {start stop : Nat}
    (front_stop : ∀ token ∈ front, token.span.stop ≤ start)
    (start_le : ∀ token ∈ middle ++ back, start ≤ token.span.start)
    (middle_stop : ∀ token ∈ middle, token.span.stop ≤ stop)
    (stop_le : ∀ token ∈ back, stop ≤ token.span.start)
    (le : start ≤ stop) (le' : stop ≤ text.length)
    (no_type : ∀ token ∈ middle.getLast?, ∀ name, token.lexeme ≠ .nodeType name) :
    Tokenized (Token.endsOperand afterOperand front) start (text.slice start stop) middle := by
  have dropped := h.drop (Nat.zero_le start) front_stop start_le (by omega)
  have length : start + (text.drop (start - 0)).length = text.length := by
    rw [List.length_drop]
    omega
  have taken := dropped.take middle_stop stop_le (by omega) no_type
  rwa [Nat.sub_zero, List.take_drop, Nat.add_sub_cancel' le] at taken

/-- A text from the start of a token through another one is the tokens between them. -/
theorem Tokenized.cut {afterOperand : Bool} {text : Text} {front middle back : List Token}
    {span : Span} (h : Tokenized afterOperand 0 text (front ++ (middle ++ back)))
    (covers : span.Covers middle)
    (no_type : ∀ token ∈ middle.getLast?, ∀ name, token.lexeme ≠ .nodeType name) :
    Tokenized (Token.endsOperand afterOperand front) span.start (span.cut text) middle ∧
      span.start + (span.cut text).length = span.stop := by
  obtain ⟨-, order, cross⟩ := Token.InOrder.append_iff.1 h.inOrder
  obtain ⟨middle_order, -, cross'⟩ := Token.InOrder.append_iff.1 order
  have lt := covers.start_lt_stop middle_order
  obtain ⟨first, head, last, mem_last, start_eq, stop_eq⟩ := id covers
  have first_mem := List.mem_of_head? head
  have last_mem := List.mem_of_getLast? mem_last
  have le := (h.within last (by simp [last_mem])).2
  have start_le : ∀ token ∈ middle ++ back, span.start ≤ token.span.start := by
    intro token mem
    obtain mem | mem := List.mem_append.1 mem
    · exact covers.start_le middle_order mem
    · have := cross' last last_mem token mem
      omega
  refine ⟨h.slice (fun token mem => ?_) start_le (fun token mem => covers.le_stop middle_order mem)
    (fun token mem => ?_) (Nat.le_of_lt lt) (by omega) no_type, ?_⟩
  · have := cross token mem first (by simp [first_mem])
    omega
  · have := cross' last last_mem token mem
    omega
  · rw [Span.cut, Text.length_slice]
    omega

/-- A slice behind the start of a text is one of the rest. -/
theorem Text.slice_length_add_append (front behind : Text) (start stop : Nat) :
    (front ++ behind).slice (front.length + start) (front.length + stop) =
      behind.slice start stop := by
  simp [slice, List.take_length_add_append, List.drop_length_add_append]

/-- The text of each token is a spelling of its lexeme. -/
theorem Tokenized.exists_spelled {afterOperand : Bool} {start : Nat} {text : Text}
    {tokens : List Token} (h : Tokenized afterOperand start text tokens) :
    ∀ token ∈ tokens, ∃ after c more, token.lexeme.Spelled after c more ∧
      text.slice (token.span.start - start) (token.span.stop - start) = c :: more := by
  induction h with
  | layout => simp
  | @token afterOperand start gap lexeme c more behind span tokens layout spelled stays starts
      stops rest ih =>
    intro token mem
    obtain rfl | mem := List.mem_cons.1 mem
    · refine ⟨afterOperand, c, more, spelled, ?_⟩
      have start_eq : span.start - start = gap.length := by omega
      have stop_eq : span.stop - start = (gap ++ c :: more).length := by
        rw [List.length_append, List.length_cons]
        omega
      have middle := Text.slice_append gap (c :: more) behind
      simpa [start_eq, stop_eq] using middle
    -- What is behind the first token starts at its end.
    · obtain ⟨after, d, others, spelled', eq⟩ := ih token mem
      refine ⟨after, d, others, spelled', ?_⟩
      have within := rest.within token mem
      have lt := rest.inOrder.start_lt_stop token mem
      have length : (gap ++ c :: more).length = span.stop - start := by
        rw [List.length_append, List.length_cons]
        omega
      have start_eq : token.span.start - start =
          (gap ++ c :: more).length + (token.span.start - span.stop) := by omega
      have stop_eq : token.span.stop - start =
          (gap ++ c :: more).length + (token.span.stop - span.stop) := by omega
      rw [← eq, start_eq, stop_eq,
        show gap ++ c :: (more ++ behind) = (gap ++ c :: more) ++ behind by simp,
        Text.slice_length_add_append]

/-- A symbol is as long as its spelling. -/
theorem Tokenized.stop_eq_of_mem_symbols {afterOperand : Bool} {text : Text} {tokens : List Token}
    (h : Tokenized afterOperand 0 text tokens) (lexeme : Lexeme) {span : Span}
    (mem : ⟨lexeme, span⟩ ∈ tokens) {length : Nat}
    (symbol : ∀ after c more, lexeme.Spelled after c more → more.length + 1 = length) :
    span.stop = span.start + length := by
  obtain ⟨after, c, more, spelled, eq⟩ := h.exists_spelled _ mem
  have lt := h.inOrder.start_lt_stop _ mem
  have le := (h.within _ mem).2
  have lengths := congrArg List.length eq
  rw [Text.length_slice, List.length_cons, symbol after c more spelled] at lengths
  dsimp only at lt le lengths
  omega

/-- A text that starts with its first token starts with the spelling of the token. -/
theorem Tokenized.exists_head {afterOperand : Bool} {start : Nat} {text : Text} {token : Token}
    {tokens : List Token} (h : Tokenized afterOperand start text (token :: tokens))
    (starts : token.span.start = start) :
    ∃ c more behind, text = c :: (more ++ behind) ∧ token.lexeme.Spelled afterOperand c more := by
  cases h with
  | @token _ _ gap lexeme c more behind span _ layout spelled stays starts' stops rest =>
    obtain rfl : gap = [] := by
      rw [← List.length_eq_zero_iff]
      dsimp only at starts
      omega
    exact ⟨c, more, behind, rfl, spelled⟩

/-- A text that stops with its last token stops with the spelling of the token. -/
theorem Tokenized.exists_last {afterOperand : Bool} {start : Nat} {text : Text} {last : Token}
    {tokens : List Token} (h : Tokenized afterOperand start text tokens)
    (mem : last ∈ tokens.getLast?) (stops : last.span.stop = start + text.length) :
    ∃ after c more front, text = front ++ c :: more ∧ last.lexeme.Spelled after c more := by
  induction h with
  | layout => simp at mem
  | @token afterOperand start gap lexeme c more behind span tokens layout spelled stays starts
      stops' rest ih =>
    simp only [List.length_append, List.length_cons] at stops
    cases tokens with
    | nil =>
      obtain rfl : ⟨lexeme, span⟩ = last := Option.some.inj mem
      obtain rfl : behind = [] := by
        rw [← List.length_eq_zero_iff]
        dsimp only at stops
        omega
      exact ⟨afterOperand, c, more, gap, by simp, spelled⟩
    | cons second tokens =>
      rw [List.getLast?_cons_cons] at mem
      obtain ⟨after, d, others, front, rfl, spelled'⟩ := ih mem (by omega)
      exact ⟨after, d, others, gap ++ c :: (more ++ front), by simp, spelled'⟩

/-- **A symbol parts a text**: the tokens in front of it stand in the text in front of its spelling, and
those behind it in the text behind. The last token in front must not be the name of a node type. -/
theorem Tokenized.exists_symbol {afterOperand : Bool} {start : Nat} {text : Text}
    {before behind : List Token} {lexeme : Lexeme} {span : Span} (c : Char) (more : Text)
    (symbol : (lexeme, c, more) ∈ Lexeme.symbols)
    (no_type : ∀ token ∈ before.getLast?, ∀ name, token.lexeme ≠ .nodeType name)
    (h : Tokenized afterOperand start text (before ++ ⟨lexeme, span⟩ :: behind)) :
    ∃ front rest, text = front ++ (c :: more) ++ rest ∧
      span = ⟨start + front.length, start + (front ++ c :: more).length⟩ ∧
        Tokenized afterOperand start front before ∧
          Tokenized lexeme.endsOperand span.stop rest behind := by
  obtain ⟨-, order, cross⟩ := Token.InOrder.append_iff.1 h.inOrder
  obtain ⟨lt, -, later⟩ := Token.InOrder.cons_iff.1 order
  have within := h.within ⟨lexeme, span⟩ (by simp)
  dsimp only at lt later within
  have stops : ∀ token ∈ before, token.span.stop ≤ span.start := fun token mem =>
    cross token mem _ List.mem_cons_self
  have starts : ∀ token ∈ (⟨lexeme, span⟩ :: behind : List Token), span.start ≤ token.span.start := by
    intro token mem
    obtain rfl | mem := List.mem_cons.1 mem
    · exact Nat.le_refl _
    · have := later token mem
      omega
  -- The text is cut where the symbol starts, so that what is behind starts with its spelling.
  have taken := h.take stops starts (by omega) no_type
  have dropped := h.drop within.1 stops starts (by omega)
  have split := (List.take_append_drop (span.start - start) text).symm
  have length : (text.take (span.start - start)).length = span.start - start := by
    rw [List.length_take]
    omega
  generalize text.take (span.start - start) = front at taken split length
  generalize text.drop (span.start - start) = rest at dropped split
  cases dropped with
  | @token _ _ gap _ d others rest _ _ layout spelled _ begins ends after =>
    obtain rfl : gap = [] := by
      rw [← List.length_eq_zero_iff]
      omega
    obtain ⟨rfl, rfl⟩ := spelled.eq_symbol symbol
    refine ⟨front, rest, by simp [split], ?_, taken, after⟩
    cases span
    dsimp only at length begins ends within
    rw [List.length_append, List.length_cons, length, ends]
    congr 1 <;> omega

/-- A text with no white space at its ends has nothing to trim. -/
theorem Text.trim_eq_self {text : Text} (head : ∀ c ∈ text.head?, isWhiteSpace c = false)
    (last : ∀ c ∈ text.getLast?, isWhiteSpace c = false) : text.trim = text := by
  have dropWhile_eq : ∀ {chars : Text}, (∀ c ∈ chars.head?, isWhiteSpace c = false) →
      chars.dropWhile isWhiteSpace = chars := by
    intro chars head
    cases chars with
    | nil => rfl
    | cons c chars => rw [List.dropWhile_cons_of_neg (by simp [head c rfl])]
  rw [trim, dropWhile_eq head, dropWhile_eq, List.reverse_reverse]
  rwa [List.head?_reverse]

/-- **A text from a token through another one has nothing to trim** if there is no Ogham space in
it, and it is not empty. -/
theorem Tokenized.trim_eq {afterOperand : Bool} {start : Nat} {text : Text} {tokens : List Token}
    (h : Tokenized afterOperand start text tokens) {span : Span} (covers : span.Covers tokens)
    (starts : span.start = start) (stops : span.stop = start + text.length)
    (no_ogham : oghamSpace ∉ text) : text.trim = text ∧ text ≠ [] := by
  obtain ⟨first, head, last, mem, start_eq, stop_eq⟩ := covers
  obtain ⟨tail, rfl⟩ := List.head?_eq_some_iff.1 head
  obtain ⟨c, more, behind, text_eq, spelled⟩ := h.exists_head (start_eq.symm.trans starts)
  obtain ⟨after, d, others, front, text_eq', spelled'⟩ := h.exists_last mem (stop_eq.symm.trans stops)
  refine ⟨Text.trim_eq_self (fun e mem => ?_) (fun e mem => ?_), by simp [text_eq]⟩
  · have not_ogham : e ≠ oghamSpace := fun eq => no_ogham (eq ▸ List.mem_of_head? mem)
    rw [text_eq] at mem
    obtain rfl := Option.mem_some.1 mem
    exact isWhiteSpace_of_isEdge spelled.isEdge.1 not_ogham
  · have not_ogham : e ≠ oghamSpace := fun eq => no_ogham (eq ▸ List.mem_of_getLast? mem)
    rw [text_eq'] at mem
    refine isWhiteSpace_of_isEdge ?_ not_ogham
    obtain rfl | mem := eq_or_mem_of_mem_getLast? mem
    · exact spelled'.isEdge.1
    · exact spelled'.isEdge.2 e mem

end LocationPath
