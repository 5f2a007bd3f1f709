import LocationPath.Proofs.Lexing.Tokenized

/-! # Where no token starts

The reading of tokens breaks off at a position where no lexeme is spelled, neither after an operand
nor elsewhere, and what has been read stands before it.

Main results: `Scan.not_spelled_of_unknown` and `Lexing.of_ending_unknown`. -/

namespace LocationPath

/-- A literal that is not closed has no mark in it. -/
theorem Literal.not_mem_of_body_eq_none {mark : Char} {text : Text} (h : body mark text = none) :
    mark ∉ text := by
  induction text with
  | nil => simp
  | cons c rest ih =>
    by_cases eq : c = mark
    · rw [body.eq_def] at h
      simp only [eq, if_true] at h
      split at h
      · simp at h
      · split at h
        · split at h <;> simp at h
        · simp at h
    · rw [body_cons_of_ne eq, Option.map_eq_none_iff] at h
      simp [Ne.symm eq, ih h]

/-- Some symbol is found wherever one is spelled. -/
theorem Lexeme.isSome_symbol? {lexeme : Lexeme} {c : Char} {more : Text}
    (mem : (lexeme, c, more) ∈ symbols) (behind : Text) :
    (symbol? c (more ++ behind).head?).isSome := by
  -- Only the exclamation mark is no symbol by itself.
  by_cases exclamation : c = '!'
  · have first_eq : ∀ symbol ∈ symbols, symbol.2.1 = '!' → symbol.2.2 = ['='] := by decide +kernel
    have more_eq : more = ['='] := first_eq _ mem exclamation
    rw [exclamation, more_eq]
    rfl
  · have others : ∀ symbol ∈ symbols, symbol.2.1 ≠ '!' → ∀ next,
        (symbol? symbol.2.1 next).isSome := by
      simp [symbols, symbol?]
    exact others _ mem exclamation _

namespace Scan

/-- Nothing starts either with a mark that is not closed, or with what starts no number, no name and
no symbol. -/
theorem of_next_eq_unknown {afterOperand : Bool} {c : Char} {rest : Text}
    (h : next afterOperand c rest = .unknown) :
    ((c = '"' ∨ c = '\'') ∧ c ∉ rest) ∨
      (¬(c = '"' ∨ c = '\'') ∧ number? c rest = none ∧ isNameStart c = false ∧ c ≠ '*' ∧
        Lexeme.symbol? c rest.head? = none) := by
  cases h ▸ finds afterOperand c rest with
  | openLiteral quotation not_closed =>
    exact .inl ⟨quotation, Literal.not_mem_of_body_eq_none not_closed⟩
  | number number =>
    -- A number is found or is too long, but never unknown.
    nomatch number ▸ findsNumber c rest
  | nothing no_quotation no_number no_name no_star no_symbol =>
    exact .inr ⟨no_quotation, no_number, no_name, no_star, no_symbol⟩

/-- **Where nothing is found, no lexeme is spelled**, after an operand or elsewhere. -/
theorem not_spelled_of_unknown {afterOperand : Bool} {c : Char} {rest : Text}
    (h : next afterOperand c rest = .unknown) {after : Bool} {lexeme : Lexeme}
    {more behind : Text} (eq : rest = more ++ behind) : ¬ lexeme.Spelled after c more := by
  intro spelled
  subst eq
  rcases of_next_eq_unknown h with ⟨mark, open_literal⟩ | ⟨no_mark, no_number, no_name, no_star, no_symbol⟩
  · -- Only a literal starts with a mark, and it would hold the mark that closes it.
    cases spelled with
    | literal => simp at open_literal
    | fraction => simp at mark
    | times | star => simp at mark
    | pointed first | integer first =>
      rcases mark with rfl | rfl <;> revert first <;> decide
    | name first | nodeType first | word first =>
      rcases mark with rfl | rfl <;> revert first <;> decide
    | symbol mem =>
      obtain ⟨-, -, no_quotation, no_apostrophe, -⟩ := Lexeme.of_mem_symbols _ mem
      exact mark.elim no_quotation no_apostrophe
  · have no_digit := of_number?_eq_none no_number
    cases spelled with
    | literal quotation => exact no_mark quotation
    | fraction ne digits =>
      cases more with
      | nil => exact ne rfl
      | cons d fraction =>
        have := no_digit.2 rfl d rfl
        simp [this] at digits
    | times | star => exact no_star rfl
    | pointed first | integer first => simp [no_digit.1] at first
    | name first | nodeType first | word first => simp [no_name] at first
    | symbol mem =>
      rw [← Option.not_isSome_iff_eq_none] at no_symbol
      exact no_symbol (Lexeme.isSome_symbol? mem behind)

end Scan

/-- Where the reading of tokens breaks off, the text goes on with what is unknown, no lexeme is
spelled there, and all tokens stand before it. -/
theorem Lexing.of_ending_unknown {afterOperand : Bool} {start : Nat} {text rest : Text}
    {position : Nat} (h : (ofTextFrom afterOperand start text).ending = .unknown rest position) :
    start ≤ position ∧ rest = text.drop (position - start) ∧
      (∀ token ∈ (ofTextFrom afterOperand start text).tokens, token.span.stop ≤ position) ∧
      ∀ (after : Bool) (lexeme : Lexeme) (c : Char) (more behind : Text),
        rest = c :: (more ++ behind) → ¬ lexeme.Spelled after c more := by
  fun_induction ofTextFrom afterOperand start text with
  | case1 => simp at h
  | case2 afterOperand start c tail layout ih =>
    obtain ⟨le, eq, before, nothing⟩ := ih h
    refine ⟨by omega, ?_, before, nothing⟩
    rw [eq, show position - start = position - (start + 1) + 1 by omega, List.drop_succ_cons]
  | case3 afterOperand start c tail _ lexeme used next stop later =>
    rename_i ih
    obtain ⟨le, eq, before, nothing⟩ := ih h
    refine ⟨by omega, ?_, ?_, nothing⟩
    · rw [eq, List.drop_drop, show position - start = used + (position - stop) + 1 by omega,
        List.drop_succ_cons]
    · intro token mem
      rcases List.mem_cons.1 mem with rfl | mem
      · exact le
      · exact before token mem
  | case4 => simp at h
  -- No way to find a token at this place leads on.
  | case5 afterOperand start c tail _ unknown =>
    obtain ⟨rfl, rfl⟩ := Ending.unknown.inj h
    refine ⟨Nat.le_refl _, by simp, by simp, ?_⟩
    rintro after lexeme d more behind eq
    obtain ⟨rfl, rfl⟩ := List.cons.inj eq
    exact Scan.not_spelled_of_unknown unknown rfl

end LocationPath
