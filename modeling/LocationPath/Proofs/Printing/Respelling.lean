import LocationPath.Proofs.Lexing.Spelling
import LocationPath.Proofs.Printing.Written

/-! # The least spelling of a lexeme

Of all ways to spell a lexeme one is printed. It spells the lexeme again, unless this is a number
that is not written in places.

Main definitions: `Lexeme.spelling`, `Lexeme.isReadable`. Main results: `Lexeme.Spelled.respelled`
and `Lexeme.Spelled.unreadable`. -/

namespace LocationPath

namespace Lexeme

/-- A lexeme as it is printed: a literal with its marks, all others as what they stand for. -/
def spelling : Lexeme → Text
  | .literal value => Literal.write value
  | lexeme => lexeme.value.plain

/-- Whether the printed form of a lexeme is one of its spellings. -/
def isReadable : Lexeme → Bool
  | .float number => number.isInPlaces
  | _ => true

/-! ## Numbers -/

/-- A number that is spelled has no sign and is at most infinite. -/
theorem Spelled.float_bounds {afterOperand : Bool} {lexeme : Lexeme} {number : Binary64} {c : Char}
    {more : Text} (h : lexeme.Spelled afterOperand c more) (eq : lexeme = .float number) :
    number.negative = false ∧ number.rank.val ≤ infinityRank := by
  have of_pointed : ∀ whole fraction : Text, Lexeme.pointed whole fraction = .float number →
      number.negative = false ∧ number.rank.val ≤ infinityRank := by
    intro whole fraction eq
    rw [← Lexeme.float.inj eq]
    exact ⟨rfl, rankOfDecimal_le _ _⟩
  cases h with
  | pointed => exact of_pointed _ _ eq
  | fraction => exact of_pointed _ _ eq
  | symbol mem =>
    subst eq
    simp [symbols] at mem
  | _ => contradiction

/-- What is written in places spells the number. -/
theorem spelled_of_isPlaces (afterOperand : Bool) {number : Binary64} {text : Text}
    (positive : number.negative = false) (h : text.IsPlaces number.rank) :
    ∃ c more, text = c :: more ∧ (Lexeme.float number).Spelled afterOperand c more := by
  rcases h with ⟨c, whole, fraction, rfl, first, whole_digits, fraction_digits, rank⟩
  have number_eq : Lexeme.pointed (c :: whole) fraction = .float number := by
    cases number with
    | mk negative place =>
      obtain rfl : negative = false := positive
      have place_eq : rankOfDecimal (Text.numeral (c :: whole ++ fraction)) (-(fraction.length : Int)) =
          place.val := rank
      simp only [Lexeme.pointed, Binary64.ofDecimal, place_eq]
  refine ⟨c, _, rfl, ?_⟩
  rw [← number_eq]
  exact .pointed first whole_digits fraction_digits

/-- A number that is printed in places spells itself. -/
theorem spelled_of_isInPlaces (afterOperand : Bool) {number : Binary64}
    (positive : number.negative = false) (le : number.rank.val ≤ infinityRank)
    (h : number.isInPlaces = true) :
    ∃ c more, number.written = c :: more ∧ (Lexeme.float number).Spelled afterOperand c more := by
  rw [Binary64.isInPlaces_iff] at h
  rcases Binary64.written_cases positive le with infinite | places | scientific
  · exact absurd infinite h.1
  · exact spelled_of_isPlaces afterOperand positive places
  · exact absurd scientific.mem h.2

/-- The digits of a natural number spell it, provided that they are not too many. -/
theorem spelled_ofNat (afterOperand : Bool) {digits : Text} (ne : digits ≠ [])
    (short : digits.length ≤ maxIntegerDigits) : ∃ c more, Text.ofNat digits.numeral = c :: more ∧
      (Lexeme.integer digits.numeral).Spelled afterOperand c more := by
  have value := Text.numeral_ofNat digits.numeral
  have all := Text.all_isDigit_ofNat digits.numeral
  have length := Text.length_ofNat_numeral_le ne
  cases eq : Text.ofNat digits.numeral with
  | nil => exact absurd eq (Text.ofNat_ne_nil _)
  | cons c more =>
    rw [eq] at value all length
    rw [List.all_cons, Bool.and_eq_true] at all
    rw [List.length_cons] at length
    have spelled := @Spelled.integer afterOperand c more all.1 all.2 (by omega)
    rw [value] at spelled
    exact ⟨c, more, rfl, spelled⟩

/-! ## All lexemes -/

/-- Symbols are printed as they are spelled. -/
theorem spelling_of_mem_symbols :
    ∀ symbol ∈ symbols, symbol.1.spelling = symbol.2.1 :: symbol.2.2 := by
  decide +kernel

/-- A written literal is a mark, the value with its marks doubled, and the mark. -/
theorem exists_write (value : Text) : ∃ mark, (mark = '"' ∨ mark = '\'') ∧
    Literal.write value = mark :: (Literal.double mark value ++ [mark]) :=
  ⟨Literal.mark value, Literal.mark_eq value, rfl⟩

/-- **The printed form of a readable lexeme spells it.** -/
theorem Spelled.respelled {afterOperand : Bool} {lexeme : Lexeme} {c : Char} {more : Text}
    (h : lexeme.Spelled afterOperand c more) (readable : lexeme.isReadable = true) :
    ∃ first rest, lexeme.spelling = first :: rest ∧ lexeme.Spelled afterOperand first rest := by
  -- Numbers with a point are printed in their own form, not in the one that was read.
  have of_float : ∀ number, lexeme = .float number → ∃ first rest,
      lexeme.spelling = first :: rest ∧ lexeme.Spelled afterOperand first rest := by
    rintro number rfl
    obtain ⟨positive, le⟩ := h.float_bounds rfl
    exact spelled_of_isInPlaces afterOperand positive le readable
  cases h with
  | literal quotation value =>
    obtain ⟨mark, quotation, eq⟩ := exists_write value
    exact ⟨mark, _, eq, .literal quotation value⟩
  | pointed => exact of_float _ rfl
  | fraction => exact of_float _ rfl
  | integer first digits short => exact spelled_ofNat afterOperand (List.cons_ne_nil _ _) short
  | name first no_digit chars no_word => exact ⟨_, _, rfl, .name first no_digit chars no_word⟩
  | nodeType first no_digit chars no_word mem =>
    exact ⟨_, _, rfl, .nodeType first no_digit chars no_word mem⟩
  | word first no_digit chars after spelling =>
    exact ⟨_, _, OperatorWord.spelling_of_ofName? spelling,
      .word first no_digit chars after spelling⟩
  | times after => exact ⟨_, _, rfl, .times after⟩
  | star after => exact ⟨_, _, rfl, .star after⟩
  | symbol mem => exact ⟨_, _, spelling_of_mem_symbols _ mem, .symbol mem⟩

/-- **A lexeme that is not readable** is a number that is printed as infinity or with an exponent. -/
theorem Spelled.unreadable {afterOperand : Bool} {lexeme : Lexeme} {c : Char} {more : Text}
    (h : lexeme.Spelled afterOperand c more) (unreadable : lexeme.isReadable = false) :
    ∃ number, lexeme = .float number ∧
      (lexeme.spelling = "inf".toList ∨ lexeme.spelling.IsScientific) := by
  cases lexeme with
  | float number =>
    refine ⟨number, rfl, ?_⟩
    obtain ⟨positive, le⟩ := h.float_bounds rfl
    rcases Binary64.written_cases positive le with infinite | places | scientific
    · exact .inl infinite
    · rw [isReadable, (Binary64.isInPlaces_iff number).2 places.no_exponent] at unreadable
      contradiction
    · exact .inr scientific
  | _ => contradiction

end Lexeme

end LocationPath
