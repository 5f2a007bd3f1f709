import LocationPath.Proofs.Lexing.Unknown
import Mathlib.Computability.Language

/-! # The rules of tokens

What tokens look like, as regular languages and apart from the order in which they are tried. Every
spelled lexeme is matched by a rule; and whatever a rule matches starts with a spelled lexeme, so
where the reading of tokens breaks off no rule matches anything.

Main definition: `tokenRules`. Main results: `Lexeme.Spelled.matched` and
`exists_spelled_of_mem_tokenRules`. -/

namespace LocationPath

open scoped Computability

/-! ## Classes of characters -/

/-- The texts of one character of a class. -/
def oneOf (class? : Char → Bool) : Language Char := {text | ∃ c, class? c = true ∧ text = [c]}

/-- A text is a run of characters of a class if all of them are in the class. -/
theorem mem_kstar_oneOf {class? : Char → Bool} {text : Text} :
    text ∈ (oneOf class?)∗ ↔ text.all class? = true := by
  rw [Language.mem_kstar]
  constructor
  · rintro ⟨parts, rfl, one⟩
    rw [List.all_flatten, List.all_eq_true]
    intro part mem
    obtain ⟨c, in_class, rfl⟩ := one part mem
    simp [in_class]
  · intro all
    refine ⟨text.map ([·]), ?_, fun part part_mem => ?_⟩
    · rw [← List.flatMap_def, List.flatMap_singleton']
    · obtain ⟨c, mem, rfl⟩ := List.mem_map.1 part_mem
      exact ⟨c, List.all_eq_true.1 all c mem, rfl⟩

/-- A text starts with a character of a class and goes on in a language. -/
theorem mem_oneOf_mul {class? : Char → Bool} {others : Language Char} {text : Text} :
    text ∈ oneOf class? * others ↔
      ∃ c more, text = c :: more ∧ class? c = true ∧ more ∈ others := by
  rw [Language.mem_mul]
  constructor
  · rintro ⟨-, ⟨c, in_class, rfl⟩, more, mem, rfl⟩
    exact ⟨c, more, rfl, in_class, mem⟩
  · rintro ⟨c, more, rfl, in_class, mem⟩
    exact ⟨[c], ⟨c, in_class, rfl⟩, more, mem, rfl⟩

/-- A text starts with a given character and goes on in a language. -/
theorem mem_singleton_mul {c : Char} {others : Language Char} {text : Text} :
    text ∈ ({[c]} : Language Char) * others ↔ ∃ more, text = c :: more ∧ more ∈ others := by
  rw [Language.mem_mul]
  constructor
  · rintro ⟨-, rfl, more, mem, rfl⟩
    exact ⟨more, rfl, mem⟩
  · rintro ⟨more, rfl, mem⟩
    exact ⟨[c], rfl, more, mem, rfl⟩

/-! ## The rules -/

/-- A literal between two marks: inside of it the mark stands twice, and all else as it is. -/
def quoted (mark : Char) : Language Char :=
  {[mark]} * ((oneOf (· ≠ mark) + {[mark, mark]})∗ * {[mark]})

/-- A literal with one of the two marks. -/
def literalRule : Language Char := quoted '"' + quoted '\''

/-- A number without a point. -/
def integerRule : Language Char := oneOf isDigit * (oneOf isDigit)∗

/-- A number with a point, in front of which or behind which there is a digit. -/
def floatRule : Language Char :=
  integerRule * ({['.']} * (oneOf isDigit)∗) + {['.']} * integerRule

/-- A name without a colon. -/
def nameRule : Language Char := oneOf isNameStart * (oneOf isNameChar)∗

/-- The rules of tokens: literals, numbers, names, the star, and the other symbols. -/
def tokenRules : List (Language Char) :=
  [literalRule, floatRule, integerRule, nameRule, {['*']}] ++
    Lexeme.symbols.map fun symbol => {symbol.2.1 :: symbol.2.2}

/-! ## What the rules match -/

/-- The part between two marks is a value with the mark in it doubled. -/
theorem mem_quoted {mark : Char} {text : Text} :
    text ∈ quoted mark ↔ ∃ value, text = mark :: (Literal.double mark value ++ [mark]) := by
  have mem_body : ∀ body : Text, body ∈ (oneOf (· ≠ mark) + {[mark, mark]} : Language Char)∗ ↔
      ∃ value, body = Literal.double mark value := by
    intro body
    rw [Language.mem_kstar]
    -- Each part is a character of the value, as it is written.
    constructor
    · rintro ⟨parts, rfl, part_mem⟩
      induction parts with
      | nil => exact ⟨[], rfl⟩
      | cons part parts ih =>
        obtain ⟨value, eq⟩ := ih fun other mem => part_mem other (List.mem_cons_of_mem _ mem)
        rw [List.flatten_cons, eq]
        obtain ⟨c, ne, rfl⟩ | rfl := part_mem part List.mem_cons_self
        · exact ⟨c :: value, by simp [Literal.double, of_decide_eq_true ne]⟩
        · exact ⟨mark :: value, by simp [Literal.double]⟩
    · rintro ⟨value, rfl⟩
      refine ⟨value.map fun c => if c = mark then [c, c] else [c], List.flatMap_def,
        fun part mem => ?_⟩
      obtain ⟨c, -, rfl⟩ := List.mem_map.1 mem
      by_cases eq : c = mark
      · subst eq
        exact .inr (if_pos rfl)
      · exact .inl ⟨c, by simpa using eq, if_neg eq⟩
  rw [quoted, mem_singleton_mul]
  constructor
  · rintro ⟨more, rfl, body, body_mem, -, rfl, rfl⟩
    obtain ⟨value, rfl⟩ := (mem_body body).1 body_mem
    exact ⟨value, rfl⟩
  · rintro ⟨value, rfl⟩
    exact ⟨_, rfl, Language.append_mem_mul ((mem_body _).2 ⟨value, rfl⟩) rfl⟩

/-- An integer is a digit and others. -/
theorem mem_integerRule {text : Text} : text ∈ integerRule ↔
    ∃ c more, text = c :: more ∧ isDigit c = true ∧ more.all isDigit = true := by
  simp only [integerRule, mem_oneOf_mul, mem_kstar_oneOf]

/-- A number with a point has digits in front of the point, or at least one behind it. -/
theorem mem_floatRule {text : Text} : text ∈ floatRule ↔
    (∃ c whole fraction, text = c :: (whole ++ '.' :: fraction) ∧ isDigit c = true ∧
      whole.all isDigit = true ∧ fraction.all isDigit = true) ∨
    ∃ fraction, text = '.' :: fraction ∧ fraction ≠ [] ∧ fraction.all isDigit = true := by
  rw [floatRule, Language.mem_add]
  refine or_congr ?_ ?_
  · rw [Language.mem_mul]
    constructor
    · rintro ⟨front, front_mem, behind, behind_mem, rfl⟩
      obtain ⟨c, whole, rfl, first, whole_digits⟩ := mem_integerRule.1 front_mem
      obtain ⟨fraction, rfl, fraction_mem⟩ := mem_singleton_mul.1 behind_mem
      exact ⟨c, whole, fraction, rfl, first, whole_digits, mem_kstar_oneOf.1 fraction_mem⟩
    · rintro ⟨c, whole, fraction, rfl, first, whole_digits, fraction_digits⟩
      exact ⟨c :: whole, mem_integerRule.2 ⟨c, whole, rfl, first, whole_digits⟩, '.' :: fraction,
        mem_singleton_mul.2 ⟨fraction, rfl, mem_kstar_oneOf.2 fraction_digits⟩, rfl⟩
  · rw [mem_singleton_mul]
    refine exists_congr fun fraction => and_congr_right fun _ => ?_
    rw [mem_integerRule]
    cases fraction with
    | nil => simp
    | cons c more => simp

/-- A name is a character that starts one and others of names. -/
theorem mem_nameRule {text : Text} : text ∈ nameRule ↔
    ∃ c more, text = c :: more ∧ isNameStart c = true ∧ more.all isNameChar = true := by
  simp only [nameRule, mem_oneOf_mul, mem_kstar_oneOf]

/-- **A spelled lexeme is matched by a rule.** -/
theorem Lexeme.Spelled.matched {afterOperand : Bool} {lexeme : Lexeme} {c : Char} {more : Text}
    (h : lexeme.Spelled afterOperand c more) : ∃ rule ∈ tokenRules, c :: more ∈ rule := by
  cases h with
  | literal quotation value =>
    refine ⟨literalRule, by simp [tokenRules], ?_⟩
    obtain rfl | rfl := quotation
    · exact .inl (mem_quoted.2 ⟨value, rfl⟩)
    · exact .inr (mem_quoted.2 ⟨value, rfl⟩)
  | pointed first whole_digits fraction_digits =>
    exact ⟨floatRule, by simp [tokenRules],
      mem_floatRule.2 (.inl ⟨_, _, _, rfl, first, whole_digits, fraction_digits⟩)⟩
  | fraction ne digits =>
    exact ⟨floatRule, by simp [tokenRules], mem_floatRule.2 (.inr ⟨_, rfl, ne, digits⟩)⟩
  | integer first digits =>
    exact ⟨integerRule, by simp [tokenRules], mem_integerRule.2 ⟨_, _, rfl, first, digits⟩⟩
  | name first _ chars | nodeType first _ chars | word first _ chars =>
    exact ⟨nameRule, by simp [tokenRules], mem_nameRule.2 ⟨_, _, rfl, first, chars⟩⟩
  | times | star => exact ⟨{['*']}, by simp [tokenRules], rfl⟩
  | symbol mem =>
    exact ⟨{c :: more}, List.mem_append_right _ (List.mem_map.2 ⟨_, mem, rfl⟩), rfl⟩

/-- **What a rule matches starts with a spelled lexeme.** This need not be all of it: an integer may
be too long, and a digit that names can start with is an integer by itself. -/
theorem exists_spelled_of_mem_tokenRules {rule : Language Char} (mem : rule ∈ tokenRules)
    {text : Text} (matched : text ∈ rule) : ∃ (lexeme : Lexeme) (c : Char) (more behind : Text),
      text = c :: (more ++ behind) ∧ lexeme.Spelled false c more := by
  have of_digit : ∀ c behind, isDigit c = true →
      ∃ (lexeme : Lexeme) (d : Char) (more behind' : Text),
        c :: behind = d :: (more ++ behind') ∧ lexeme.Spelled false d more :=
    fun c behind first => ⟨_, c, [], behind, rfl, .integer first List.all_nil (by decide)⟩
  simp only [tokenRules, List.cons_append, List.nil_append, List.mem_cons, List.mem_map] at mem
  obtain rfl | rfl | rfl | rfl | rfl | ⟨⟨lexeme, c, more⟩, symbol, rfl⟩ := mem
  · have quotation : ∃ mark value, (mark = '"' ∨ mark = '\'') ∧
        text = mark :: (Literal.double mark value ++ [mark]) := by
      obtain matched | matched := matched
      · obtain ⟨value, eq⟩ := mem_quoted.1 matched
        exact ⟨'"', value, .inl rfl, eq⟩
      · obtain ⟨value, eq⟩ := mem_quoted.1 matched
        exact ⟨'\'', value, .inr rfl, eq⟩
    obtain ⟨mark, value, quotation, rfl⟩ := quotation
    exact ⟨_, mark, _, [], by simp, .literal quotation value⟩
  · obtain ⟨c, whole, fraction, rfl, first, whole_digits, fraction_digits⟩ |
      ⟨fraction, rfl, ne, digits⟩ := mem_floatRule.1 matched
    · exact ⟨_, c, _, [], by simp, .pointed first whole_digits fraction_digits⟩
    · exact ⟨_, '.', fraction, [], by simp, .fraction ne digits⟩
  · obtain ⟨c, more, rfl, first, -⟩ := mem_integerRule.1 matched
    exact of_digit c more first
  · obtain ⟨c, more, rfl, first, chars⟩ := mem_nameRule.1 matched
    -- A name may start with what counts as a digit, and is then an integer first.
    cases digit : isDigit c with
    | true => exact of_digit c more digit
    | false => exact ⟨_, c, more, [], by simp, .name first digit chars (by simp)⟩
  · obtain rfl : text = ['*'] := matched
    exact ⟨.star, '*', [], [], rfl, .star rfl⟩
  · obtain rfl : text = c :: more := matched
    exact ⟨lexeme, c, more, [], by simp, .symbol symbol⟩

end LocationPath
