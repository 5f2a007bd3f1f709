import LocationPath.Proofs.Grammar.Derivation

/-! # Where phrases begin and where they can end

Which lexemes an expression of a level can begin with, and which ones would make it longer if they
stood behind it. No operator of a chain makes an operand of it longer, so the two sets tell each
token of a chain what it belongs to.

Main definitions: `Level.opens`, `Level.extends` and `Level.Stops` (some tokens do not make an
expression in front of them longer). Main results: `Derivation.exists_first` and
`Derivation.opens_of_mem_head?_append`. -/

namespace LocationPath

/-! ## Beginnings -/

/-- Whether a step can begin with a lexeme. -/
def Lexeme.startsStep : Lexeme → Bool
  | .name _ | .star | .nodeType _ | .atSign | .dot | .dots => true
  | .dollar | .openParen | .literal _ | .float _ | .integer _ => true
  | _ => false

/-- A step can start with some tokens if it can begin with the first one. -/
theorem Opening.canStart_cons (token : Token) (rest : List Token) :
    Opening.canStart (token :: rest) = token.lexeme.startsStep := by
  cases h : token.lexeme <;> simp [Opening.canStart, Lexeme.startsStep, h]

/-- Whether an expression of a level can begin with a lexeme. -/
def Level.opens (level : Level) : Lexeme → Bool
  | .minus => 4 ≤ level.height
  | .slash | .slashes => 2 ≤ level.height
  | lexeme => lexeme.startsStep

/-- A looser expression can begin with all that a tighter one can begin with. -/
theorem Level.opens_of_height_le {level looser : Level} (le : level.height ≤ looser.height)
    {lexeme : Lexeme} (h : level.opens lexeme = true) : looser.opens lexeme = true := by
  cases lexeme <;> simp_all [Level.opens] <;> omega

/-- Every expression can begin as a step does. -/
theorem Level.opens_of_startsStep {level : Level} {lexeme : Lexeme}
    (h : lexeme.startsStep = true) : level.opens lexeme = true := by
  cases lexeme <;> simp_all [Level.opens, Lexeme.startsStep]

/-- Steps between slashes begin as their first step does. -/
theorem Level.opens_steps (lexeme : Lexeme) :
    (Level.chain .steps).opens lexeme = lexeme.startsStep := by
  cases lexeme <;> rfl

/-- A lexeme that an expression can begin with is no operator that could be read as a name. -/
theorem Level.no_operator_of_opens {level : Level} {lexeme : Lexeme}
    (h : level.opens lexeme = true) : lexeme ≠ .times ∧ ∀ word, lexeme ≠ .word word := by
  constructor
  · rintro rfl
    contradiction
  · rintro word rfl
    contradiction

/-- Whether a phrase can begin with a lexeme. -/
def Phrase.opens : Phrase → Lexeme → Bool
  | .level binding, lexeme => binding.opens lexeme
  | .axisStep, lexeme | .filter, lexeme | .primary, lexeme => lexeme.startsStep
  | .nodeTest, .name _ | .nodeTest, .star | .nodeTest, .nodeType _ => true
  | .qualifiedName, .name _ => true
  | .predicates, .openBracket | .predicate, .openBracket => true
  | .arguments, lexeme => (Level.chain .disjunction).opens lexeme
  | _, _ => false

/-- A node test begins as a step can begin. -/
theorem Phrase.startsStep_of_opens_nodeTest {lexeme : Lexeme}
    (h : Phrase.nodeTest.opens lexeme = true) : lexeme.startsStep = true := by
  cases lexeme <;> simp_all [Phrase.opens, Lexeme.startsStep]

/-- A name begins as a step can begin. -/
theorem Phrase.startsStep_of_opens_qualifiedName {lexeme : Lexeme}
    (h : Phrase.qualifiedName.opens lexeme = true) : lexeme.startsStep = true := by
  cases lexeme <;> simp_all [Phrase.opens, Lexeme.startsStep]

namespace Derivation

/-- What `exists_first` says of one derivation. Only a list of predicates may be empty. -/
def HasFirst {phrase : Phrase} (derivation : Derivation phrase) : Prop :=
  (phrase = .predicates ∧ derivation.tokens = []) ∨
    ∃ token rest, derivation.tokens = token :: rest ∧ phrase.opens token.lexeme = true

/-- A phrase that begins with a part that begins rightly has a first token. -/
private theorem hasFirst_of_append {part phrase : Phrase} {first : Derivation part}
    {derivation : Derivation phrase} (h : first.HasFirst) (rest : List Token)
    (tokens_eq : derivation.tokens = first.tokens ++ rest) (ne : part ≠ .predicates)
    (opens : ∀ lexeme, part.opens lexeme = true → phrase.opens lexeme = true) :
    derivation.HasFirst := by
  obtain ⟨eq, -⟩ | ⟨token, tail, eq, starts⟩ := h
  · exact absurd eq ne
  · exact .inr ⟨token, tail ++ rest, by rw [tokens_eq, eq, List.cons_append], opens _ starts⟩

/-- Every phrase but an empty list of predicates begins with a token that it can begin with. -/
theorem hasFirst {phrase : Phrase} (derivation : Derivation phrase) : derivation.HasFirst := by
  induction derivation with
  | @operand chain only ih =>
    refine hasFirst_of_append ih [] (by simp [tokens]) (by simp) fun _ h => ?_
    exact Level.opens_of_height_le (Nat.le_of_lt chain.height_operand_lt) h
  | link left op joins right ihl ihr =>
    exact hasFirst_of_append ihl _ rfl (by simp) fun _ h => h
  | negated | root | absolute | anywhere | selfStep | parentStep | attributeStep | namedAxisStep =>
    exact .inr ⟨_, _, rfl, rfl⟩
  | anyTest | anyQualifiedTest | typeTest | typeTestFor | plainName | prefixedName | predicate =>
    exact .inr ⟨_, _, rfl, rfl⟩
  | reference | group | emptySequence | text | float | integer =>
    exact .inr ⟨_, _, rfl, rfl⟩
  | unnegated only ih | relative only ih =>
    exact hasFirst_of_append ih [] (by simp [tokens]) (by simp) fun _ h =>
      Level.opens_of_height_le (by decide) h
  | axisStep step ih | filterStep step ih =>
    exact hasFirst_of_append ih [] (by simp [tokens]) (by simp) fun _ h =>
      Level.opens_of_startsStep h
  | testStep test conditions ih =>
    exact hasFirst_of_append ih _ rfl (by simp) fun _ h => Phrase.startsStep_of_opens_nodeTest h
  | nameTest name ih =>
    refine hasFirst_of_append ih [] (by simp [tokens]) (by simp) fun lexeme h => ?_
    cases lexeme <;> simp_all [Phrase.opens]
  | noPredicate => exact .inl ⟨rfl, rfl⟩
  | morePredicates earlier last ihe ihl =>
    obtain ⟨-, eq⟩ | ⟨token, rest, eq, starts⟩ := ihe
    -- Where there are no earlier predicates the last one is also the first.
    · obtain ⟨absurd, -⟩ | ⟨token, rest, eq', starts⟩ := ihl
      · simp at absurd
      · refine .inr ⟨token, rest, by rw [tokens, eq, eq', List.nil_append], ?_⟩
        cases h : token.lexeme <;> simp_all [Phrase.opens]
    · exact .inr ⟨token, rest ++ last.tokens, by rw [tokens, eq, List.cons_append], starts⟩
  | filtered base conditions ih =>
    exact hasFirst_of_append ih _ rfl (by simp) fun _ h => h
  | emptyCall name opening closing ih | call name opening arguments closing ih =>
    exact hasFirst_of_append ih _ rfl (by simp) fun _ h =>
      Phrase.startsStep_of_opens_qualifiedName h
  | argument only ih =>
    exact hasFirst_of_append ih [] (by simp [tokens]) (by simp) fun _ h => h
  | moreArguments earlier comma last ih =>
    exact hasFirst_of_append ih _ rfl (by simp) fun _ h => h

/-- **A phrase begins with what it can begin with**, whatever stands behind it. -/
theorem opens_of_mem_head?_append {phrase : Phrase} (derivation : Derivation phrase)
    {rest : List Token} (ne : phrase ≠ .predicates) :
    ∀ token ∈ (derivation.tokens ++ rest).head?, phrase.opens token.lexeme = true := by
  intro token mem
  obtain ⟨empty, -⟩ | ⟨first, tail, tokens_eq, opens⟩ := derivation.hasFirst
  · exact absurd empty ne
  · rw [tokens_eq] at mem
    rwa [← Option.mem_some.1 mem]

/-- Tokens that a phrase begins with do not start with what it cannot begin with. -/
theorem tokens_ne_cons {phrase : Phrase} (derivation : Derivation phrase) {token : Token}
    {rest rest' : List Token} (ne : phrase ≠ .predicates)
    (closed : phrase.opens token.lexeme = false) :
    derivation.tokens ++ rest ≠ token :: rest' := by
  intro eq
  have opens := derivation.opens_of_mem_head?_append ne token (by rw [eq]; rfl)
  rw [closed] at opens
  contradiction

/-- An expression begins with a token that its level can begin with. -/
theorem exists_first {level : Level} (derivation : Derivation (.level level)) :
    ∃ token rest, derivation.tokens = token :: rest ∧ level.opens token.lexeme = true := by
  obtain ⟨absurd, -⟩ | h := derivation.hasFirst
  · simp at absurd
  · exact h

/-- A predicate begins with an opening bracket. -/
theorem exists_opening (derivation : Derivation .predicate) :
    ∃ span rest, derivation.tokens = ⟨.openBracket, span⟩ :: rest := by
  cases derivation with
  | predicate opening condition closing => exact ⟨opening, _, rfl⟩

/-- Predicates are none at all or begin with an opening bracket. -/
theorem predicates_first (derivation : Derivation .predicates) :
    derivation.tokens = [] ∨ ∃ span rest, derivation.tokens = ⟨.openBracket, span⟩ :: rest := by
  obtain ⟨-, eq⟩ | ⟨⟨lexeme, span⟩, rest, eq, starts⟩ := derivation.hasFirst
  · exact .inl eq
  · refine .inr ⟨span, rest, ?_⟩
    cases lexeme <;> simp_all [Phrase.opens]

end Derivation

/-! ## Ends -/

/-- The chain that a lexeme is an operator of, if it is one. -/
def Lexeme.chain? : Lexeme → Option Chain
  | .comma => some .sequence
  | .word .or => some .disjunction
  | .word .and => some .conjunction
  | .word .div | .word .idiv | .word .mod => some .product
  | .word _ => some .equality
  | .equal | .notEqual => some .equality
  | .less | .lessEqual | .greater | .greaterEqual => some .relation
  | .plus | .minus => some .sum
  | .times => some .product
  | .bar => some .union
  | .slash | .slashes => some .steps
  | _ => none

/-- A lexeme is an operator of one chain at most. -/
theorem Chain.joins_iff {chain : Chain} {lexeme : Lexeme} :
    chain.joins lexeme = true ↔ lexeme.chain? = some chain := by
  cases lexeme with
  | word word => cases chain <;> cases word <;> simp [Chain.joins, Lexeme.chain?]
  | _ => cases chain <;> simp [Chain.joins, Lexeme.chain?]

/-- Whether an expression of a level would be longer with a lexeme behind it. What can start a step
makes the root alone longer, and a mark after a name makes the name longer. -/
def Level.extends (level : Level) (lexeme : Lexeme) : Bool :=
  lexeme.startsStep || lexeme = .openBracket || lexeme = .colon || lexeme = .axisMark ||
    lexeme.chain?.any fun chain => (Level.chain chain).height ≤ level.height

/-- Some tokens do not make an expression of a level in front of them longer. -/
def Level.Stops (level : Level) (rest : List Token) : Prop :=
  ∀ token ∈ rest.head?, level.extends token.lexeme = false

/-- The end of the tokens does not make an expression longer. -/
@[simp] theorem Level.stops_nil (level : Level) : level.Stops [] := by simp [Level.Stops]

/-- Only the first token behind an expression matters. -/
@[simp] theorem Level.stops_cons (level : Level) (token : Token) (rest : List Token) :
    level.Stops (token :: rest) ↔ level.extends token.lexeme = false := by
  simp [Level.Stops]

/-- What makes no expression of a level longer starts no step. -/
theorem Level.startsStep_of_extends {level : Level} {lexeme : Lexeme}
    (h : level.extends lexeme = false) : lexeme.startsStep = false := by
  cases start : lexeme.startsStep with
  | false => rfl
  | true => simp [Level.extends, start] at h

/-- What closes parentheses makes no expression longer. -/
@[simp] theorem Level.extends_closeParen (level : Level) : level.extends .closeParen = false := by
  simp [Level.extends, Lexeme.startsStep, Lexeme.chain?]

/-- What closes brackets makes no expression longer. -/
@[simp] theorem Level.extends_closeBracket (level : Level) :
    level.extends .closeBracket = false := by
  simp [Level.extends, Lexeme.startsStep, Lexeme.chain?]

/-- What makes a tighter expression longer makes a looser one longer too. -/
theorem Level.Stops.of_height_le {level looser : Level} (le : level.height ≤ looser.height)
    {rest : List Token} (h : looser.Stops rest) : level.Stops rest := by
  intro token mem
  have := h token mem
  simp only [Level.extends, Bool.or_eq_false_iff] at this ⊢
  refine ⟨this.1, ?_⟩
  cases eq : token.lexeme.chain? with
  | none => rfl
  | some chain =>
    have high := this.2
    simp only [eq, Option.any_some, decide_eq_false_iff_not] at high ⊢
    omega

/-- What does not make a chain longer does not make its operands longer. -/
theorem Level.Stops.operand {chain : Chain} {rest : List Token}
    (h : (Level.chain chain).Stops rest) : chain.operand.Stops rest :=
  h.of_height_le (Nat.le_of_lt chain.height_operand_lt)

/-- An operator of a chain starts no step and is no mark of a name. -/
theorem Chain.extends_of_joins {chain : Chain} {lexeme : Lexeme}
    (h : chain.joins lexeme = true) (level : Level) :
    level.extends lexeme = decide ((Level.chain chain).height ≤ level.height) := by
  rw [Chain.joins_iff] at h
  cases lexeme <;> simp_all [Level.extends, Lexeme.startsStep, Lexeme.chain?]

/-- An operator of a chain does not make an operand of it longer. -/
theorem Chain.stops_operand (chain : Chain) (op : Token) (h : chain.joins op.lexeme = true)
    (rest : List Token) : chain.operand.Stops (op :: rest) := by
  have := chain.height_operand_lt
  rw [Level.stops_cons, Chain.extends_of_joins h, decide_eq_false_iff_not]
  omega

/-- What does not make a chain longer is no operator of it. -/
theorem Level.Stops.not_joins {chain : Chain} {token : Token} {rest : List Token}
    (h : (Level.chain chain).Stops (token :: rest)) : chain.joins token.lexeme = false := by
  rw [Level.stops_cons] at h
  cases joins : chain.joins token.lexeme with
  | false => rfl
  | true => simp [Chain.extends_of_joins joins] at h

end LocationPath
