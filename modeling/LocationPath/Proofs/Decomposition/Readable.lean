import LocationPath.Proofs.Decomposition.Collected
import LocationPath.Proofs.Decomposition.Progress
import LocationPath.Proofs.Placement.Source

/-! # Steps that can be read back

The texts of a step are cut out of an accepted text. Each of them alone is accepted again: the text
of the step as its front, and each predicate as an expression.

Main definitions: `Text.IsExpression` and `Step.ReadsAs`. Main results: `Front.readsAs` and
`PathInfo.exists_readsAs` (the steps of an accepted text can be read back). -/

namespace LocationPath

/-- A text is accepted as an expression. -/
def Text.IsExpression (text : Text) : Prop := ∃ tree, Node.parse text = .ok tree

/-- A text is a front. -/
structure Front.Spells (front : Front) (text : Text) : Prop where
  /-- The tokens of the text are those of the front. -/
  tokenized : Tokenized false 0 text front.tokens
  /-- There is no layout around them. -/
  span_eq : front.span = ⟨0, text.length⟩

/-- The texts of a step can be read back, its own text as a front. -/
structure Step.ReadsAs (step : Step) (front : Front) : Prop where
  /-- The own text is the front. -/
  spells : front.Spells step.text
  /-- The predicates are expressions. -/
  isExpression : ∀ predicate ∈ step.predicates, predicate.IsExpression
  /-- There is no white space that a name could hold. -/
  no_ogham : oghamSpace ∉ step.toText

/-- The texts of a step can be read back. -/
def Step.Readable (step : Step) : Prop := ∃ front, step.ReadsAs front

/-! ## Slashes at the end of a text -/

/-- Nothing is dropped from a text that does not end with the mark. -/
theorem Text.dropTrailing_eq_self {mark : Char} {text : Text} (h : text.getLast? ≠ some mark) :
    text.dropTrailing mark = text := by
  rw [dropTrailing, List.dropWhile_eq_self_iff.2, List.reverse_reverse]
  intro lt eq
  refine h ?_
  rw [← List.head?_reverse, List.head?_eq_getElem?, List.getElem?_eq_getElem lt]
  exact congrArg some (beq_iff_eq.1 eq)

/-- The marks at the end of a text are dropped. -/
theorem Text.dropTrailing_append {mark : Char} (front : Text) {marks : Text}
    (all : ∀ c ∈ marks, c = mark) : (front ++ marks).dropTrailing mark = front.dropTrailing mark := by
  rw [dropTrailing, List.reverse_append, List.dropWhile_append_of_pos fun c mem => by
    simp [all c (List.mem_reverse.1 mem)], dropTrailing]

/-- What a step can end with is not written with a slash at the end. -/
theorem Lexeme.Spelled.getLast?_ne_slash {afterOperand : Bool} {lexeme : Lexeme} {c : Char}
    {more : Text} (h : lexeme.Spelled afterOperand c more) (ends : lexeme.endsStep = true) :
    (c :: more).getLast? ≠ some '/' := by
  have of_class : ∀ (class? : Char → Bool), class? '/' = false → class? c = true →
      more.all class? = true → (c :: more).getLast? ≠ some '/' := by
    intro class? slash first others eq
    have all : (c :: more).all class? = true := by rw [List.all_cons, first, others]; rfl
    rw [List.all_eq_true.1 all _ (List.mem_of_getLast? eq)] at slash
    contradiction
  -- The characters of a lexeme are of a class that the slash is not in; a literal ends with its
  -- mark.
  let isNumeral (d : Char) : Bool := isDigit d || d == '.'
  have numeral : ∀ {digits : Text}, digits.all isDigit = true → digits.all isNumeral = true :=
    fun digits => List.all_eq_true.2 fun d mem => by
      simp [isNumeral, List.all_eq_true.1 digits d mem]
  cases h with
  | literal quotation =>
    rw [← List.cons_append, List.getLast?_concat]
    obtain rfl | rfl := quotation <;> decide
  | pointed first whole fraction =>
    refine of_class isNumeral (by decide +kernel) (by simp [isNumeral, first]) ?_
    rw [List.all_append, List.all_cons, numeral whole, numeral fraction]
    rfl
  | fraction ne digits => exact of_class isNumeral (by decide +kernel) rfl (numeral digits)
  | integer first digits => exact of_class isDigit (by decide +kernel) first digits
  | name first _ chars | nodeType first _ chars | word first _ chars =>
    exact of_class isNameChar (by decide +kernel) (isNameChar_of_isNameStart first) chars
  | times | star => decide
  | symbol mem =>
    have lasts : ∀ symbol ∈ symbols, symbol.1.endsStep = true →
        (symbol.2.1 :: symbol.2.2).getLast? ≠ some '/' := by decide +kernel
    exact lasts _ mem ends

/-- A text that closes with a step does not end with a slash. -/
theorem Tokenized.getLast?_ne_slash {afterOperand : Bool} {start : Nat} {text : Text}
    {tokens : List Token} (h : Tokenized afterOperand start text tokens)
    (ends : ∀ last ∈ tokens.getLast?, last.lexeme.endsStep = true) :
    text.getLast? ≠ some '/' := by
  have layout_ends : ∀ {gap : Text}, gap.all isLayout = true → gap.getLast? ≠ some '/' :=
    fun layout eq => by
      have := List.all_eq_true.1 layout _ (List.mem_of_getLast? eq)
      contradiction
  induction h with
  | layout layout => exact layout_ends layout
  | @token _ _ gap lexeme c more behind span tokens layout spelled _ _ _ rest ih =>
    rw [← List.cons_append, List.getLast?_append, List.getLast?_append]
    cases last_eq : behind.getLast? with
    | some d =>
      rw [Option.some_or, Option.some_or, ← last_eq]
      refine ih fun last mem => ends last ?_
      rw [List.getLast?_cons, Option.mem_def.1 mem]
      rfl
    | none =>
      -- Nothing is left for another token behind this one.
      have none_left : tokens = [] := by
        cases rest with
        | layout => rfl
        | token => simp at last_eq
      have own := spelled.getLast?_ne_slash (ends ⟨lexeme, span⟩ (by rw [none_left]; rfl))
      rwa [Option.none_or, List.getLast?_cons, Option.some_or, ← List.getLast?_cons]

/-! ## Dots -/

namespace Front

/-- A front that is a single token is written as the token. -/
private theorem Spells.exists_spelled {front : Front} {text : Text} (h : front.Spells text)
    (lexeme : Lexeme) (eq : front.tokens = [⟨lexeme, front.span⟩]) :
    ∃ after c more, lexeme.Spelled after c more ∧ text = c :: more := by
  obtain ⟨after, c, more, spelled, text_eq⟩ :=
    h.tokenized.exists_spelled ⟨lexeme, front.span⟩ (by simp [eq])
  refine ⟨after, c, more, spelled, ?_⟩
  simpa [h.span_eq, Text.slice] using text_eq

/-- What dots stand for is their text. -/
theorem Spells.abbreviation? {front : Front} {text : Text} (h : front.Spells text) :
    front.abbreviation?.getD text = text := by
  cases front with
  | self dot =>
    obtain ⟨after, c, more, spelled, rfl⟩ := h.exists_spelled .dot rfl
    obtain ⟨rfl, rfl⟩ : c = '.' ∧ more = [] := spelled.eq_symbol (by simp [Lexeme.symbols])
    rfl
  | parent dots =>
    obtain ⟨after, c, more, spelled, rfl⟩ := h.exists_spelled .dots rfl
    obtain ⟨rfl, rfl⟩ : c = '.' ∧ more = ['.'] := spelled.eq_symbol (by simp [Lexeme.symbols])
    rfl
  | _ => rfl

/-- The texts of dots are those of the fronts that are dots. -/
theorem Spells.isDots_iff {front : Front} {text : Text} (h : front.Spells text) :
    front.isDots = true ↔ text = ['.'] ∨ text = ['.', '.'] := by
  constructor
  · intro dotted
    have text_eq := h.abbreviation?
    cases front with
    | self dot => exact .inl text_eq.symm
    | parent dots => exact .inr text_eq.symm
    | _ => simp [isDots] at dotted
  · -- The tokens of a text are unique, and a token of dots is no front but dots.
    have tokens_eq := tokenized_iff.1 h.tokenized
    rintro (rfl | rfl)
    · have one : Lexing.ofTextFrom false 0 ['.'] = ⟨[⟨.dot, ⟨0, 1⟩⟩], .finished⟩ := by
        decide +kernel
      obtain ⟨eq, -⟩ := Lexing.mk.inj (tokens_eq.symm.trans one)
      obtain ⟨-, rfl⟩ | ⟨absurd, -⟩ := of_tokens_eq_singleton eq (.inl rfl)
      · rfl
      · simp at absurd
    · have one : Lexing.ofTextFrom false 0 ['.', '.'] = ⟨[⟨.dots, ⟨0, 2⟩⟩], .finished⟩ := by
        decide +kernel
      obtain ⟨eq, -⟩ := Lexing.mk.inj (tokens_eq.symm.trans one)
      obtain ⟨absurd, -⟩ | ⟨-, rfl⟩ := of_tokens_eq_singleton eq (.inr rfl)
      · simp at absurd
      · rfl

end Front

/-- A step is dots if its front is. -/
theorem Step.ReadsAs.isDots {step : Step} {front : Front} (h : step.ReadsAs front) :
    step.isDots = front.isDots := by
  rw [Bool.eq_iff_iff, h.spells.isDots_iff, Step.isDots, Step.isSelf, Step.isParent,
    Bool.or_eq_true, beq_iff_eq, beq_iff_eq]

/-! ## Cutting steps out of a text -/

/-- **A front that is cut out of a text is its own text.** -/
theorem Front.spells_cut {text : Text} {front : Front} {before behind : List Token}
    (h : Tokenized false 0 text (before ++ (front.tokens ++ behind))) :
    ∃ starts stops, (front.move starts stops).Spells (front.span.cut text) := by
  obtain ⟨first, rest, first_eq, starts⟩ := front.exists_first
  obtain ⟨cut, length⟩ := Front.tokenized_cut h
  rw [first_eq] at cut
  have no_operator := (Level.step.no_operator_of_opens (Level.opens_of_startsStep starts))
  have shifted := (cut.elsewhere no_operator).shift
    front.span.start 0 (Nat.le_refl _)
  rw [← first_eq, Nat.add_zero, Nat.sub_self, Token.shift_eq_move, ← Front.tokens_move] at shifted
  refine ⟨_, _, shifted, ?_⟩
  rw [Front.span_move, Span.move]
  congr 1
  · omega
  · omega

/-- **A condition that is cut out of a text is an expression.** -/
theorem Derivation.isExpression_slice {text : Text} {condition : Derivation .expression}
    {opening closing : Span} {before behind : List Token}
    (h : Tokenized false 0 text (before ++
      (⟨.openBracket, opening⟩ :: (condition.tokens ++ ⟨.closeBracket, closing⟩ :: behind)))) :
    ((opening.through closing).cutInside text).IsExpression :=
  ⟨_, condition.parse_of_tokenized (condition.tokenized_cutInside h)⟩

/-- The predicates that are cut out of a text are expressions. -/
theorem Derivation.isExpression_predicates {text : Text} : (conditions : Derivation .predicates) →
    {before behind : List Token} →
      Tokenized false 0 text (before ++ (conditions.tokens ++ behind)) →
        ∀ predicate ∈ conditions.value, (predicate.span.cutInside text).IsExpression
  | .noPredicate, before, behind, h => by simp [value]
  | .morePredicates earlier (.predicate opening condition closing), before, behind, h => by
    rw [tokens, tokens] at h
    intro predicate mem
    obtain mem | mem := List.mem_append.1 mem
    · rw [List.append_assoc earlier.tokens] at h
      exact isExpression_predicates earlier h predicate mem
    · rw [List.mem_singleton.1 mem]
      have inside : Tokenized false 0 text ((before ++ earlier.tokens) ++ (⟨.openBracket, opening⟩ ::
          (condition.tokens ++ ⟨.closeBracket, closing⟩ :: behind))) := by simpa using h
      exact isExpression_slice inside

/-- What is not in the texts of a step is not in the whole text, but for brackets. -/
theorem Step.not_mem_toText {step : Step} {c : Char} (text : c ∉ step.text)
    (predicates : ∀ predicate ∈ step.predicates, c ∉ predicate) (ne : c ≠ '[' ∧ c ≠ ']') :
    c ∉ step.toText := by
  rw [toText, predicateText, List.mem_append, List.mem_flatMap]
  rintro (mem | ⟨predicate, predicate_mem, mem⟩)
  · exact text mem
  · have inside : c = '[' ∨ c ∈ predicate ∨ c = ']' := by simpa [Text.between] using mem
    obtain eq | mem | eq := inside
    · exact ne.1 eq
    · exact predicates predicate predicate_mem mem
    · exact ne.2 eq

/-- **The step of a front with predicates in an accepted text can be read back.** -/
theorem Front.readsAs {text : Text} {front : Front} {conditions : Derivation .predicates}
    {before behind : List Token}
    (h : Tokenized false 0 text (before ++ ((front.step conditions).tokens ++ behind)))
    (no_ogham : oghamSpace ∉ text) {candidate : Candidate}
    (found : Node.candidate? text (front.step conditions).value = .ok candidate) :
    ∃ starts stops, candidate.step.ReadsAs (front.move starts stops) := by
  rw [Front.tokens_step, List.append_assoc] at h
  obtain ⟨starts, stops, spells⟩ := Front.spells_cut h
  have covers := (front.move starts stops).covers spells.tokenized.inOrder
  have trimmed := (spells.tokenized.trim_eq covers (by rw [spells.span_eq])
    (by rw [spells.span_eq, Nat.zero_add]) fun mem => no_ogham (Text.mem_of_mem_slice mem)).1
  -- The texts of the step are those of the front and of the predicates.
  have abbreviation := spells.abbreviation?
  rw [Front.abbreviation?_move] at abbreviation
  obtain ⟨text_eq, predicates_eq, -⟩ := Node.candidate?_eq_ok_iff.1 found
  rw [Front.ownText_step, abbreviation, trimmed] at text_eq
  rw [Front.ownPredicates_step] at predicates_eq
  rw [← List.append_assoc] at h
  have expressions := Derivation.isExpression_predicates conditions h
  refine ⟨starts, stops, text_eq ▸ spells, fun predicate mem => ?_, ?_⟩
  · rw [← predicates_eq] at mem
    obtain ⟨node, node_mem, rfl⟩ := List.mem_map.1 mem
    exact expressions node node_mem
  · refine Step.not_mem_toText (fun mem => ?_) (fun predicate predicate_mem mem => ?_)
      (by decide +kernel)
    · rw [← text_eq] at mem
      exact no_ogham (Text.mem_of_mem_slice mem)
    · rw [← predicates_eq] at predicate_mem
      obtain ⟨node, -, rfl⟩ := List.mem_map.1 predicate_mem
      exact no_ogham (Text.mem_of_mem_slice mem)

/-- **The steps of an accepted text can be read back**, each as the front of the outermost node at
its place. -/
theorem PathInfo.exists_readsAs_at {text : Text} {derivation : Derivation .expression}
    {info : PathInfo} (tokenized : Tokenized false 0 text derivation.tokens)
    (h : PathInfo.parse text = .ok info) (no_ogham : oghamSpace ∉ text) {index : Nat} {step : Step}
    (at_index : info.locationSteps[index]? = some step) :
    ∃ (front : Front) (conditions : Derivation .predicates),
      (Node.outermost derivation.value)[index]? = some (front.step conditions).value ∧
        ∃ starts stops, step.ReadsAs (front.move starts stops) := by
  obtain ⟨found, -, made, steps⟩ := PathInfo.exists_found derivation tokenized h
  rw [steps, List.getElem?_map] at at_index
  obtain ⟨candidate, candidate_at, rfl⟩ := Option.map_eq_some_iff.1 at_index
  obtain ⟨node, node_at, node_made⟩ := Node.exists_of_getElem?_mapM made candidate_at
  obtain ⟨front, conditions, rfl, before, behind, tokens_eq⟩ :=
    derivation.exists_step_of_mem_outermost (List.mem_of_getElem? node_at)
  rw [← tokens_eq, List.append_assoc] at tokenized
  exact ⟨front, conditions, node_at, Front.readsAs tokenized no_ogham node_made⟩

/-- Each step of an accepted text can be read back as the front of an outermost node. -/
theorem PathInfo.exists_readsAs {text : Text} {derivation : Derivation .expression}
    {info : PathInfo} (tokenized : Tokenized false 0 text derivation.tokens)
    (h : PathInfo.parse text = .ok info) (no_ogham : oghamSpace ∉ text) :
    ∀ step ∈ info.locationSteps, ∃ (front : Front) (conditions : Derivation .predicates),
      (front.step conditions).value ∈ Node.outermost derivation.value ∧
        ∃ starts stops, step.ReadsAs (front.move starts stops) := by
  intro step mem
  obtain ⟨index, at_index⟩ := List.mem_iff_getElem?.1 mem
  obtain ⟨front, conditions, node_at, reads⟩ :=
    PathInfo.exists_readsAs_at tokenized h no_ogham at_index
  exact ⟨front, conditions, List.mem_of_getElem? node_at, reads⟩

/-- The steps of an accepted text are readable. -/
theorem PathInfo.readable {text : Text} {info : PathInfo} (h : PathInfo.parse text = .ok info)
    (no_ogham : oghamSpace ∉ text) : ∀ step ∈ info.locationSteps, step.Readable := by
  intro step mem
  obtain ⟨tree, parsed, -⟩ := bind_eq_ok_iff.1 h
  obtain ⟨derivation, tokenized, -⟩ := Node.parse_eq_ok_iff_exists.1 parsed
  obtain ⟨front, -, -, starts, stops, reads⟩ :=
    PathInfo.exists_readsAs tokenized h no_ogham step mem
  exact ⟨front.move starts stops, reads⟩

end LocationPath
