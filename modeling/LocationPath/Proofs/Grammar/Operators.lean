import LocationPath.Proofs.Grammar.Faults
import LocationPath.Proofs.Lexing.Tokenized
import LocationPath.Proofs.Printing.Neighbours

/-! # The two readings of a star and of operator words

A star and the operator words are read as operators or as names, and the last token alone decides
which. The grammar agrees: an operator stands behind what ends an operand, and a name or a star as a
name never does. There is one exception. An operator may follow the root alone, but behind a slash
the reader expects a step.

Main definitions: `Lexeme.Rereads` (two readings of one text) and `Lexeme.suits` (the reading that
the last token decides for). Main results: `Derivation.operators`, `Derivation.suit` and
`Lexing.eq_of_rereads`. -/

namespace LocationPath

namespace Lexeme

/-- Whether a lexeme is an operator that would elsewhere be a name or a star. -/
def isOperator : Lexeme → Bool
  | .times | .word _ => true
  | _ => false

/-- A lexeme may be read as another one that is written alike. -/
inductive Rereads : Lexeme → Lexeme → Prop where
  | same (lexeme : Lexeme) : Rereads lexeme lexeme
  | star : Rereads .times .star
  | times : Rereads .star .times
  | name (word : OperatorWord) : Rereads (.word word) (.name word.spelling)
  | word (word : OperatorWord) : Rereads (.name word.spelling) (.word word)

/-- Whether a lexeme is the right reading after an operand or elsewhere. -/
def suits (afterOperand : Bool) : Lexeme → Bool
  | .times | .word _ => afterOperand
  | .star | .name _ => !afterOperand
  | _ => true

/-- **Of the readings of a lexeme at most one is right.** -/
theorem Spelled.eq_of_suits {afterOperand : Bool} {lexeme other : Lexeme} {c : Char} {more : Text}
    (h : lexeme.Spelled afterOperand c more) (rereads : lexeme.Rereads other)
    (suits : other.suits afterOperand = true) : other = lexeme := by
  cases rereads with
  | same => rfl
  | star =>
    cases h with
    | times after => simp [Lexeme.suits, after] at suits
    | symbol mem => simp [symbols] at mem
  | times =>
    cases h with
    | star after => simp [Lexeme.suits, after] at suits
    | symbol mem => simp [symbols] at mem
  | name word =>
    cases h with
    | word _ _ _ after => simp [Lexeme.suits, after] at suits
    | symbol mem => simp [symbols] at mem
  | word word =>
    generalize text_eq : word.spelling = text at h
    cases h with
    | name _ _ _ no_word =>
      -- Behind an operand the word would not have been read as a name.
      have none_eq := no_word suits
      rw [← text_eq, OperatorWord.ofName?_spelling] at none_eq
      contradiction
    | symbol mem => simp [symbols] at mem

end Lexeme

/-- A token may be read as another one in the same place. -/
structure Token.Rereads (token other : Token) : Prop where
  /-- The lexemes are two readings of one text. -/
  lexeme : token.lexeme.Rereads other.lexeme
  /-- The place is the same. -/
  span_eq : other.span = token.span

/-! ## Operators in a derivation -/

/-- Each operator among some lexemes stands behind a slash or the end of a step. -/
structure Lexeme.OperatorsBehind (lexemes : List Lexeme) : Prop where
  /-- The first lexeme is no operator. -/
  first : ∀ lexeme ∈ lexemes.head?, lexeme.isOperator = false
  /-- What stands in front of an operator is a slash or the end of a step. -/
  behind : lexemes.IsChain fun lexeme next =>
    next.isOperator = true → lexeme = .slash ∨ lexeme.endsStep = true

namespace Lexeme.OperatorsBehind

variable {lexeme : Lexeme} {lexemes lexemes' : List Lexeme}

/-- Without lexemes there are no operators. -/
theorem nil : OperatorsBehind [] := ⟨by simp, List.isChain_nil⟩

/-- Lexemes may stand behind others: no operator is the first of them. -/
theorem append (h : OperatorsBehind lexemes) (h' : OperatorsBehind lexemes') :
    OperatorsBehind (lexemes ++ lexemes') := by
  refine ⟨fun first mem => ?_, List.isChain_append.2 ⟨h.behind, h'.behind, ?_⟩⟩
  · rw [List.head?_append, Option.mem_def, Option.or_eq_some_iff] at mem
    obtain mem | ⟨-, mem⟩ := mem
    · exact h.first first mem
    · exact h'.first first mem
  · intro last _ first mem operator
    rw [h'.first first mem] at operator
    contradiction

/-- A lexeme that is no operator may stand in front. -/
theorem cons (h : OperatorsBehind lexemes) (no_operator : lexeme.isOperator = false) :
    OperatorsBehind (lexeme :: lexemes) := by
  have alone : OperatorsBehind [lexeme] := ⟨by simpa using no_operator, List.isChain_singleton _⟩
  exact alone.append h

/-- A lexeme that is no operator may stand at the end. -/
theorem concat (h : OperatorsBehind lexemes) (no_operator : lexeme.isOperator = false) :
    OperatorsBehind (lexemes ++ [lexeme]) :=
  h.append (nil.cons no_operator)

end Lexeme.OperatorsBehind

namespace Derivation

/-- **Every operator in a derivation stands behind a slash or the end of a step.** The only
production with an operator is the one that goes on with a chain. -/
theorem operators {phrase : Phrase} (derivation : Derivation phrase) :
    Lexeme.OperatorsBehind derivation.lexemes := by
  induction derivation
  all_goals simp only [lexemes, tokens, List.map_append, List.map_cons, List.map_nil] at *
  case operand ih | unnegated ih | relative ih | axisStep ih | filterStep ih | nameTest ih
  | argument ih => exact ih
  case link left op joins right ihl ihr =>
    -- The operator between the two parts stands behind what closes the left one.
    refine ⟨fun first mem => ?_, List.isChain_append.2 ⟨ihl.behind, ?_, ?_⟩⟩
    · obtain ⟨token, rest, eq, -⟩ := left.exists_first
      rw [eq] at mem ihl
      exact ihl.first first mem
    · refine List.isChain_cons.2 ⟨fun next mem operator => ?_, ihr.behind⟩
      rw [ihr.first next mem] at operator
      contradiction
    · intro last mem _ _ _
      exact Lexeme.eq_slash_or_endsStep_of_closes (left.closes_of_mem_getLast? last mem)
  case negated ih | absolute ih | anywhere ih | reference ih | selfStep ih | parentStep ih =>
    exact ih.cons rfl
  case root | anyTest | plainName | text | float | integer => exact Lexeme.OperatorsBehind.nil.cons rfl
  case testStep iht ihc | filtered iht ihc | morePredicates iht ihc => exact iht.append ihc
  case attributeStep iht ihc => exact (iht.append ihc).cons rfl
  case namedAxisStep iht ihc => exact ((iht.append ihc).cons rfl).cons rfl
  case emptySequence => exact (Lexeme.OperatorsBehind.nil.cons rfl).cons rfl
  case anyQualifiedTest | prefixedName | typeTest =>
    exact ((Lexeme.OperatorsBehind.nil.cons rfl).cons rfl).cons rfl
  case typeTestFor => exact (((Lexeme.OperatorsBehind.nil.cons rfl).cons rfl).cons rfl).cons rfl
  case noPredicate => exact .nil
  case predicate ih | group ih => exact (ih.concat rfl).cons rfl
  case emptyCall ih => exact ih.append ((Lexeme.OperatorsBehind.nil.cons rfl).cons rfl)
  case call ihn iha => exact ihn.append ((iha.concat rfl).cons rfl)
  case moreArguments ihe ihl => exact ihe.append (ihl.cons rfl)

end Derivation

namespace Lexeme

/-- A neighbour is the right reading behind a lexeme, unless it is an operator behind a slash. -/
theorem suits_of_precedes {lexeme next : Lexeme} (precedes : lexeme.precedes next = true)
    (behind : next.isOperator = true → lexeme = .slash ∨ lexeme.endsStep = true)
    (no_root : lexeme = .slash → next.isOperator = false) :
    next.suits lexeme.endsOperand = true := by
  -- The end of an operand may be the end of a step or the name of a node type, and no name follows.
  have no_name : next.startsStep = true → next ≠ .openParen → lexeme.endsOperand = false := by
    intro starts ne
    cases lexeme <;> simp_all [Lexeme.precedes, endsStep, endsOperand]
  cases next with
  | star => exact (congrArg (! ·) (no_name rfl (by simp))).trans rfl
  | name text => exact (congrArg (! ·) (no_name rfl (by simp))).trans rfl
  | times | word =>
    obtain slash | ends := behind rfl
    · exact absurd (no_root slash) (by simp [isOperator])
    · show lexeme.endsOperand = true
      cases lexeme <;> first | rfl | contradiction
  | _ => rfl

/-- Every lexeme among some is the right reading behind the one in front of it. -/
def Suit (afterOperand : Bool) : List Lexeme → Prop
  | [] => True
  | lexeme :: lexemes =>
    lexeme.suits afterOperand = true ∧ Suit lexeme.endsOperand lexemes

/-- The first lexeme and the neighbours tell whether all are right. -/
theorem suit_of_isChain {afterOperand : Bool} {lexemes : List Lexeme}
    (first : ∀ lexeme ∈ lexemes.head?, lexeme.suits afterOperand = true)
    (chain : lexemes.IsChain fun lexeme next => next.suits lexeme.endsOperand = true) :
    Suit afterOperand lexemes := by
  induction lexemes generalizing afterOperand with
  | nil => trivial
  | cons lexeme lexemes ih =>
    obtain ⟨next, chain⟩ := List.isChain_cons.1 chain
    exact ⟨first lexeme rfl, ih next chain⟩

end Lexeme

/-- **In an expression a star or an operator word is read as the token in front of it decides**, if
no operator follows a slash. -/
theorem Derivation.suit (derivation : Derivation .expression)
    (no_root : derivation.lexemes.IsChain fun lexeme next =>
      lexeme = .slash → next.isOperator = false) : Lexeme.Suit false derivation.lexemes := by
  refine Lexeme.suit_of_isChain (fun lexeme mem => ?_) ?_
  · have no_operator := derivation.operators.first lexeme mem
    cases lexeme <;> first | rfl | contradiction
  · have neighbours : derivation.lexemes.IsChain fun lexeme next =>
        lexeme.precedes next = true := derivation.neighbours
    have behind := derivation.operators.behind
    rw [List.isChain_iff_getElem] at no_root neighbours behind ⊢
    intro i lt
    exact Lexeme.suits_of_precedes (neighbours i lt) (behind i lt) (no_root i lt)

/-! ## Reading again -/

/-- A text has no second reading in which every lexeme is right. -/
theorem Tokenized.eq_of_suit {afterOperand : Bool} {start : Nat} {text : Text}
    {tokens others : List Token} (h : Tokenized afterOperand start text tokens)
    (rereads : List.Forall₂ Token.Rereads tokens others)
    (suit : Lexeme.Suit afterOperand (others.map (·.lexeme))) : others = tokens := by
  induction h generalizing others with
  | layout => exact List.forall₂_nil_left_iff.1 rereads
  | @token _ _ _ lexeme _ _ _ span _ _ spelled _ _ _ _ ih =>
    -- The tokens agree from the front, so the same token decides for both readings of the next one.
    obtain ⟨⟨other, place⟩, behind, ⟨first, span_eq⟩, rest, rfl⟩ :=
      List.forall₂_cons_left_iff.1 rereads
    obtain ⟨other_suits, rest_suit⟩ := suit
    obtain rfl : other = lexeme := spelled.eq_of_suits first other_suits
    obtain rfl : place = span := span_eq
    rw [ih rest rest_suit]

/-- **The rule for operators loses no reading of a text**: if some stars and operator words are read
the other way and the tokens are an expression then, nothing has been changed, unless an operator
follows a slash. -/
theorem Lexing.eq_of_rereads {text : Text} {tokens others : List Token}
    (read : ofText text = ⟨tokens, .finished⟩)
    (rereads : List.Forall₂ Token.Rereads tokens others) (expression : IsExpression others)
    (no_root : others.IsChain fun token next =>
      token.lexeme = .slash → next.lexeme.isOperator = false) : others = tokens := by
  obtain ⟨tree, accepted⟩ := isExpression_iff.1 expression
  obtain ⟨derivation, rfl, -⟩ := Node.ofTokens_eq_ok_iff.1 accepted
  exact (tokenized_iff.2 read).eq_of_suit rereads
    (derivation.suit ((List.isChain_map _).2 no_root))

/-- Words and stars that are names and operators in turn have no other reading. -/
theorem Lexing.eq_of_rereads_of_turns : ∃ others,
    others.map (·.lexeme) = [.name "div".toList, .word .div, .star, .times, .star, .word .mod,
      .name "mod".toList] ∧
    List.Forall₂ Token.Rereads (ofText "div div * * * mod mod".toList).tokens others ∧
      IsExpression others ∧ others = (ofText "div div * * * mod mod".toList).tokens := by
  have read : ofText "div div * * * mod mod".toList =
      ⟨(ofText "div div * * * mod mod".toList).tokens, .finished⟩ := by decide +kernel
  have unchanged : List.Forall₂ Token.Rereads (ofText "div div * * * mod mod".toList).tokens
      (ofText "div div * * * mod mod".toList).tokens :=
    List.forall₂_same.2 fun token _ => ⟨.same token.lexeme, rfl⟩
  have accepted : (Node.ofTokens (ofText "div div * * * mod mod".toList).tokens).isOk = true := by
    decide +kernel
  have expression : IsExpression (ofText "div div * * * mod mod".toList).tokens := by
    refine isExpression_iff.2 ?_
    cases found : Node.ofTokens (ofText "div div * * * mod mod".toList).tokens with
    | error rest =>
      rw [found] at accepted
      contradiction
    | ok tree => exact ⟨tree, rfl⟩
  refine ⟨_, by decide +kernel, unchanged, expression, ?_⟩
  exact eq_of_rereads read unchanged expression (by decide +kernel)

-- Behind the root alone a star might be an operator, but it is read as a step.
example : (Node.ofTokens (Lexing.ofText "/ * 2".toList).tokens).isOk = false ∧
    (Node.ofTokens [⟨.slash, ⟨0, 1⟩⟩, ⟨.times, ⟨2, 3⟩⟩, ⟨.integer 2, ⟨4, 5⟩⟩]).isOk = true := by
  decide +kernel

end LocationPath
