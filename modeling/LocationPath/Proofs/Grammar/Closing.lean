import LocationPath.Proofs.Grammar.Boundary

/-! # What phrases close with

The last tokens of phrases. A step closes with a token that can end an operand, and so does every
expression but for the root alone, which closes with its slash.

Main definitions: `Lexeme.endsStep`, `Phrase.closes`. Main results: `Derivation.exists_last` and
`Derivation.exists_last_steps`. -/

namespace LocationPath

/-- Whether a step can end with a lexeme. -/
def Lexeme.endsStep : Lexeme → Bool
  | .nodeType _ => false
  | lexeme => lexeme.endsOperand

/-- A lexeme that a step can end with is not the name of a node type. -/
theorem Lexeme.no_type_of_endsStep {lexeme : Lexeme} (h : lexeme.endsStep = true) :
    ∀ name, lexeme ≠ .nodeType name := by
  rintro name rfl
  contradiction

/-- Whether a phrase can end with a lexeme. -/
def Phrase.closes : Phrase → Lexeme → Bool
  | .level binding, .slash => 2 ≤ binding.height
  | .arguments, .slash => true
  | .qualifiedName, .name _ => true
  | .qualifiedName, _ => false
  | .predicates, lexeme | .predicate, lexeme => lexeme = .closeBracket
  | _, lexeme => lexeme.endsStep

/-- A looser expression can end with all that a tighter one can end with. -/
theorem Phrase.closes_of_height_le {level looser : Level} (le : level.height ≤ looser.height)
    {lexeme : Lexeme} (h : (Phrase.level level).closes lexeme = true) :
    (Phrase.level looser).closes lexeme = true := by
  cases lexeme <;> simp_all [Phrase.closes]
  omega

/-- Every expression can end as a step does. -/
theorem Phrase.closes_of_endsStep {level : Level} {lexeme : Lexeme}
    (h : lexeme.endsStep = true) : (Phrase.level level).closes lexeme = true := by
  cases lexeme <;> simp_all [Phrase.closes, Lexeme.endsStep, Lexeme.endsOperand]

/-- An expression that does not end as a step ends with a slash. -/
theorem Phrase.eq_slash_or_endsStep {level : Level} {lexeme : Lexeme}
    (h : (Phrase.level level).closes lexeme = true) :
    lexeme = .slash ∨ lexeme.endsStep = true := by
  cases lexeme <;> simp_all [Phrase.closes]

namespace Derivation

/-- What `exists_last` says of one derivation. Only a list of predicates may be empty. -/
def HasLast {phrase : Phrase} (derivation : Derivation phrase) : Prop :=
  (phrase = .predicates ∧ derivation.tokens = []) ∨
    ∃ front token, derivation.tokens = front ++ [token] ∧ phrase.closes token.lexeme = true

/-- A phrase that ends with a part that ends rightly has a last token. -/
private theorem hasLast_of_append {part phrase : Phrase} {last : Derivation part}
    {derivation : Derivation phrase} (h : last.HasLast) (front : List Token)
    (tokens_eq : derivation.tokens = front ++ last.tokens) (ne : part ≠ .predicates)
    (closes : ∀ lexeme, part.closes lexeme = true → phrase.closes lexeme = true) :
    derivation.HasLast := by
  obtain ⟨eq, -⟩ | ⟨earlier, token, eq, ends⟩ := h
  · exact absurd eq ne
  · exact .inr ⟨front ++ earlier, token, by rw [tokens_eq, eq, List.append_assoc], closes _ ends⟩

/-- A phrase of a head and predicates has a last token if the head has one. -/
private theorem hasLast_of_conditions {phrase : Phrase} {derivation : Derivation phrase}
    {conditions : Derivation .predicates} {token : Token} (h : conditions.HasLast)
    (front : List Token) (tokens_eq : derivation.tokens = front ++ token :: conditions.tokens)
    (ends : phrase.closes token.lexeme = true) (bracket : phrase.closes .closeBracket = true) :
    derivation.HasLast := by
  obtain ⟨-, eq⟩ | ⟨earlier, last, eq, ends'⟩ := h
  · exact .inr ⟨front, token, by rw [tokens_eq, eq], ends⟩
  · have last_eq : last.lexeme = .closeBracket := by simpa [Phrase.closes] using ends'
    exact .inr ⟨front ++ token :: earlier, last, by rw [tokens_eq, eq]; simp, by rw [last_eq, bracket]⟩

/-- A phrase of a part with predicates behind it has a last token if the part has one. -/
private theorem hasLast_of_filtered {part phrase : Phrase} {base : Derivation part}
    {derivation : Derivation phrase} {conditions : Derivation .predicates} (h : base.HasLast)
    (h' : conditions.HasLast) (front : List Token)
    (tokens_eq : derivation.tokens = front ++ (base.tokens ++ conditions.tokens))
    (ne : part ≠ .predicates)
    (closes : ∀ lexeme, part.closes lexeme = true → phrase.closes lexeme = true)
    (bracket : phrase.closes .closeBracket = true) : derivation.HasLast := by
  obtain ⟨eq, -⟩ | ⟨earlier, token, eq, ends⟩ := h
  · exact absurd eq ne
  · exact hasLast_of_conditions h' (front ++ earlier) (by simp [tokens_eq, eq]) (closes _ ends) bracket

/-- Every phrase but an empty list of predicates ends with a token that it can end with. -/
theorem hasLast {phrase : Phrase} (derivation : Derivation phrase) : derivation.HasLast := by
  induction derivation with
  | @operand chain only ih =>
    refine hasLast_of_append ih [] rfl (by simp) fun _ h => ?_
    exact Phrase.closes_of_height_le (Nat.le_of_lt chain.height_operand_lt) h
  | @link chain left op joins right ihl ihr =>
    -- A chain ends as its last operand does, which stands on a tighter level.
    refine hasLast_of_append ihr (left.tokens ++ [op]) (by simp [tokens]) (by simp)
      fun _ h => ?_
    exact Phrase.closes_of_height_le (Nat.le_of_lt chain.height_operand_lt) h
  | negated minus negative ih =>
    exact hasLast_of_append ih [⟨.minus, minus⟩] rfl (by simp) fun _ h => h
  | unnegated only ih | relative only ih =>
    exact hasLast_of_append ih [] rfl (by simp) fun _ h =>
      Phrase.closes_of_height_le (by decide) h
  | root slash => exact .inr ⟨[], _, rfl, rfl⟩
  | absolute slash steps ih =>
    exact hasLast_of_append ih [⟨.slash, slash⟩] rfl (by simp) fun _ h =>
      Phrase.closes_of_height_le (by decide) h
  | anywhere slashes steps ih =>
    exact hasLast_of_append ih [⟨.slashes, slashes⟩] rfl (by simp) fun _ h =>
      Phrase.closes_of_height_le (by decide) h
  | axisStep step ih | filterStep step ih =>
    exact hasLast_of_append ih [] rfl (by simp) fun _ h => Phrase.closes_of_endsStep h
  -- A step ends as its node test does if there are no predicates behind it.
  | testStep test conditions iht ihc =>
    exact hasLast_of_filtered iht ihc [] rfl (by simp) (fun _ h => h) rfl
  | attributeStep sign test conditions iht ihc =>
    exact hasLast_of_filtered iht ihc [⟨.atSign, sign⟩] rfl (by simp) (fun _ h => h) rfl
  | namedAxisStep axis name mark test conditions iht ihc =>
    exact hasLast_of_filtered iht ihc [⟨.name axis, name⟩, ⟨.axisMark, mark⟩] rfl (by simp)
      (fun _ h => h) rfl
  | selfStep dot conditions ih => exact hasLast_of_conditions ih [] rfl rfl rfl
  | parentStep dots conditions ih => exact hasLast_of_conditions ih [] rfl rfl rfl
  | nameTest name ih =>
    refine hasLast_of_append ih [] rfl (by simp) fun lexeme h => ?_
    cases lexeme <;> simp_all [Phrase.closes, Lexeme.endsStep, Lexeme.endsOperand]
  | anyTest star => exact .inr ⟨[], _, rfl, rfl⟩
  | anyQualifiedTest qualifier first colon star => exact .inr ⟨[_, _], _, rfl, rfl⟩
  | typeTest type name opening closing => exact .inr ⟨[_, _], _, rfl, rfl⟩
  | typeTestFor type name opening value literal closing => exact .inr ⟨[_, _, _], _, rfl, rfl⟩
  | plainName name span => exact .inr ⟨[], _, rfl, rfl⟩
  | prefixedName qualifier name first colon last => exact .inr ⟨[_, _], _, rfl, rfl⟩
  -- The empty list of predicates is the one exception.
  | noPredicate => exact .inl ⟨rfl, rfl⟩
  | morePredicates earlier last ihe ihl =>
    exact hasLast_of_append ihl earlier.tokens rfl (by simp) fun _ h => h
  | predicate opening condition closing ih =>
    exact .inr ⟨⟨.openBracket, opening⟩ :: condition.tokens, _, rfl, rfl⟩
  | filtered base conditions ihb ihc =>
    exact hasLast_of_filtered ihb ihc [] rfl (by simp) (fun _ h => h) rfl
  | reference dollar name ih =>
    refine hasLast_of_append ih [⟨.dollar, dollar⟩] rfl (by simp) fun lexeme h => ?_
    cases lexeme <;> simp_all [Phrase.closes, Lexeme.endsStep, Lexeme.endsOperand]
  | group opening inner closing ih =>
    exact .inr ⟨⟨.openParen, opening⟩ :: inner.tokens, _, rfl, rfl⟩
  | emptySequence opening closing => exact .inr ⟨[_], _, rfl, rfl⟩
  | text | float | integer => exact .inr ⟨[], _, rfl, rfl⟩
  | emptyCall name opening closing ih =>
    exact .inr ⟨name.tokens ++ [⟨.openParen, opening⟩], _, by simp [tokens]; rfl, rfl⟩
  | call name opening arguments closing ihn iha =>
    exact .inr ⟨name.tokens ++ ⟨.openParen, opening⟩ :: arguments.tokens, _,
      by simp [tokens]; rfl, rfl⟩
  | argument only ih =>
    refine hasLast_of_append ih [] rfl (by simp) fun lexeme h => ?_
    cases lexeme <;> simp_all [Phrase.closes, Lexeme.endsStep, Lexeme.endsOperand]
  | moreArguments earlier comma last ihe ihl =>
    refine hasLast_of_append ihl (earlier.tokens ++ [⟨.comma, comma⟩]) (by simp [tokens])
      (by simp) fun lexeme h => ?_
    cases lexeme <;> simp_all [Phrase.closes, Lexeme.endsStep, Lexeme.endsOperand]

/-- An expression ends with a token that can end an operand, or with a slash if it is not tighter
than a path. -/
theorem exists_last {level : Level} (derivation : Derivation (.level level)) :
    ∃ front token, derivation.tokens = front ++ [token] ∧
      (Phrase.level level).closes token.lexeme = true := by
  obtain ⟨absurd, -⟩ | h := derivation.hasLast
  · simp at absurd
  · exact h

/-- The last token of an expression is not the name of a node type. -/
theorem no_type_of_mem_getLast? {level : Level} (derivation : Derivation (.level level)) :
    ∀ token ∈ derivation.tokens.getLast?, ∀ name, token.lexeme ≠ .nodeType name := by
  obtain ⟨earlier, last, last_eq, ends⟩ := derivation.exists_last
  intro token mem name type
  rw [last_eq, List.getLast?_concat] at mem
  obtain rfl := Option.mem_some.1 mem
  rw [type] at ends
  contradiction

/-- Steps end with a token that can end an operand, one step as well as a chain of them. -/
theorem exists_last_steps {level : Level} (derivation : Derivation (.level level))
    (lt : level.height < 2) :
    ∃ front token, derivation.tokens = front ++ [token] ∧ token.lexeme.endsStep = true := by
  obtain ⟨front, token, eq, ends⟩ := derivation.exists_last
  refine ⟨front, token, eq, ?_⟩
  cases lexeme_eq : token.lexeme <;> simp_all [Phrase.closes]
  omega

/-- Predicates are none at all or end with a closing bracket. -/
theorem predicates_last (derivation : Derivation .predicates) :
    derivation.tokens = [] ∨ ∃ front span, derivation.tokens = front ++ [⟨.closeBracket, span⟩] := by
  obtain ⟨-, eq⟩ | ⟨front, ⟨lexeme, span⟩, eq, ends⟩ := derivation.hasLast
  · exact .inl eq
  · obtain rfl : lexeme = .closeBracket := by simpa [Phrase.closes] using ends
    exact .inr ⟨front, span, eq⟩

end Derivation

end LocationPath
