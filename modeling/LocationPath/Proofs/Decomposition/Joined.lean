import LocationPath.Path
import LocationPath.Proofs.Decomposition.Readable

/-! # Steps between slashes

Steps that can be read back are read back from their texts between slashes: the front of each step
and its predicates are put together to the derivation of the step, and these to a chain.

Main definitions: `Node.deepsAfter` (which steps stand behind double slashes) and `Text.Chains`. Main
results: `Step.ReadsAs.exists_step` (one step at any place of a text), `Path.steps_intercalate` and
`PathInfo.parse_intercalate` (steps between slashes). -/

namespace LocationPath

/-! ## Characters behind a step -/

/-- Slashes and brackets go on with no lexeme that a step can end with. -/
private theorem of_mem_closers {c : Char} (mem : c ∈ ['/', '[', ']']) :
    isLayout c = false ∧ isDigit c = false ∧ isNameChar c = false ∧
      c ≠ '"' ∧ c ≠ '\'' ∧ c ≠ '.' ∧ c ≠ '(' := by
  simp only [List.mem_cons, List.not_mem_nil, or_false] at mem
  rcases mem with rfl | rfl | rfl <;> decide +kernel

/-- What a step can end with meets slashes and brackets. -/
theorem Lexeme.meets_of_endsStep {lexeme : Lexeme} (h : lexeme.endsStep = true) {c : Char}
    (mem : c ∈ ['/', '[', ']']) : isLayout c = false ∧ lexeme.meets c = true := by
  obtain ⟨layout, digit, named, quotation, apostrophe, point, paren⟩ := of_mem_closers mem
  cases lexeme <;> simp_all [endsStep, endsOperand, meets]

/-- Tokens that end as a step does meet a text that starts with a slash or a bracket. -/
theorem Token.meets_of_endsStep {tokens earlier : List Token} {last : Token}
    (last_eq : tokens = earlier ++ [last]) (ends : last.lexeme.endsStep = true) {behind : Text}
    (closers : ∀ c ∈ behind.head?, c ∈ ['/', '[', ']']) :
    ∀ token ∈ tokens.getLast?, ∀ c ∈ behind.head?,
      isLayout c = false ∧ token.lexeme.meets c = true := by
  intro token mem c c_mem
  rw [last_eq, List.getLast?_concat] at mem
  obtain rfl := Option.mem_some.1 mem
  exact Lexeme.meets_of_endsStep ends (closers c c_mem)

/-- What an expression can end with meets a closing bracket. -/
theorem Lexeme.meets_bracket {level : Level} {lexeme : Lexeme}
    (h : (Phrase.level level).closes lexeme = true) :
    isLayout ']' = false ∧ lexeme.meets ']' = true := by
  obtain rfl | ends := Phrase.eq_slash_or_endsStep h
  · decide
  · exact meets_of_endsStep ends (by simp)

/-- A symbol of one character is a token. -/
theorem Tokenized.mark {afterOperand : Bool} (lexeme : Lexeme) (c : Char) (start : Nat)
    (mem : (lexeme, c, []) ∈ Lexeme.symbols) (no_type : ∀ name, lexeme ≠ .nodeType name) :
    Tokenized afterOperand start [c] [⟨lexeme, ⟨start, start + 1⟩⟩] :=
  (Lexeme.Spelled.symbol mem).tokenized no_type start

/-- A symbol of one character may stand in front of any text that leaves it as it is. -/
theorem Tokenized.cons_mark {afterOperand : Bool} (lexeme : Lexeme) (c : Char) {start : Nat}
    {behind : Text} {tokens : List Token} (mem : (lexeme, c, []) ∈ Lexeme.symbols)
    (stays : lexeme.StaysBefore c behind)
    (h : Tokenized lexeme.endsOperand (start + 1) behind tokens) :
    Tokenized afterOperand start (c :: behind) (⟨lexeme, ⟨start, start + 1⟩⟩ :: tokens) :=
  .token List.all_nil (.symbol mem) stays rfl rfl h

/-! ## Predicates -/

/-- A text that is moved from the start has its tokens moved. -/
theorem Tokenized.moved {afterOperand : Bool} {text : Text} {tokens : List Token}
    (h : Tokenized afterOperand 0 text tokens) (start : Nat) :
    Tokenized afterOperand start text (tokens.map (Token.move (· + start) (· + start))) := by
  have shifted := h.shift 0 start (Nat.le_refl 0)
  rwa [Nat.zero_add, Nat.sub_zero] at shifted

/-- An expression in brackets is a predicate, at any place and in front of any text. -/
theorem Text.IsExpression.exists_predicate {text : Text} (h : text.IsExpression) (start : Nat) :
    ∃ predicate : Derivation .predicate,
      Node.span predicate.value = ⟨start, start + (Text.between '[' ']' text).length⟩ ∧
        ∀ afterOperand rest tokens,
          Tokenized true (start + (Text.between '[' ']' text).length) rest tokens →
            Tokenized afterOperand start (Text.between '[' ']' text ++ rest)
              (predicate.tokens ++ tokens) := by
  obtain ⟨tree, parsed⟩ := h
  obtain ⟨derivation, tokenized, -⟩ := Node.parse_eq_ok_iff_exists.1 parsed
  obtain ⟨earlier, last, last_eq, ends⟩ := derivation.exists_last
  have moved := tokenized.moved (start + 1)
  rw [← Derivation.tokens_move] at moved
  have stop : start + 1 + text.length + 1 = start + (Text.between '[' ']' text).length := by
    simp only [Text.between, List.length_append, List.length_cons, List.length_nil]
    omega
  refine ⟨.predicate ⟨start, start + 1⟩ (derivation.move (· + (start + 1)) (· + (start + 1)))
    ⟨start + 1 + text.length, start + 1 + text.length + 1⟩, ?_,
    fun afterOperand rest tokens behind => ?_⟩
  · rw [← stop]
    rfl
  · rw [← stop] at behind
    have closed := moved.append (.cons_mark .closeBracket ']' (by simp [Lexeme.symbols]) trivial
      behind) fun token mem c c_mem => by
        rw [Derivation.tokens_move, last_eq, List.map_append, List.map_singleton,
          List.getLast?_concat] at mem
        obtain rfl := Option.mem_some.1 mem
        obtain rfl := Option.mem_some.1 c_mem
        exact Lexeme.meets_bracket ends
    have opened : Tokenized afterOperand start ('[' :: (text ++ ']' :: rest)) _ :=
      .cons_mark .openBracket '[' (by simp [Lexeme.symbols]) trivial closed
    simpa [Text.between, Derivation.tokens] using opened

/-- What an expression in brackets holds inside. -/
theorem Span.cutInside_between (before text behind : Text) {span : Span}
    (eq : span = ⟨before.length, before.length + (Text.between '[' ']' text).length⟩) :
    span.cutInside (before ++ Text.between '[' ']' text ++ behind) = text := by
  have inside := Text.slice_append (before ++ ['[']) text (']' :: behind)
  rw [eq, Span.cutInside]
  refine Eq.trans ?_ inside
  simp only [Text.between, List.length_append, List.length_cons, List.length_nil]
  congr 1
  · simp
  · omega

/-- **Expressions in brackets are predicates**, at any place. -/
theorem exists_predicates {predicates : List Text}
    (h : ∀ predicate ∈ predicates, predicate.IsExpression) (start : Nat) :
    ∃ conditions : Derivation .predicates,
      Tokenized true start (predicates.flatMap (Text.between '[' ']')) conditions.tokens ∧
        ∀ before behind : Text, before.length = start → conditions.value.map
          (·.span.cutInside (before ++ predicates.flatMap (Text.between '[' ']') ++ behind)) =
            predicates := by
  induction predicates using List.reverseRecOn with
  | nil => exact ⟨.noPredicate, .layout rfl, fun before behind eq => rfl⟩
  | append_singleton predicates last ih =>
    obtain ⟨conditions, tokenized, cut⟩ := ih fun predicate mem => h predicate (by simp [mem])
    -- The predicates are added from the left on, as the grammar does.
    have flat : (predicates ++ [last]).flatMap (Text.between '[' ']') =
        predicates.flatMap (Text.between '[' ']') ++ Text.between '[' ']' last := by simp
    obtain ⟨predicate, span_eq, put⟩ := (h last (by simp)).exists_predicate
      (start + (predicates.flatMap (Text.between '[' ']')).length)
    refine ⟨.morePredicates conditions predicate, ?_, fun before behind eq => ?_⟩
    · have alone := put (Token.endsOperand true conditions.tokens) [] [] (.layout rfl)
      rw [List.append_nil, List.append_nil] at alone
      rw [flat]
      refine tokenized.append alone fun token mem c c_mem => ?_
      obtain rfl : '[' = c := Option.mem_some.1 c_mem
      obtain empty | ⟨front, span, last_eq⟩ := conditions.predicates_last
      · simp [empty] at mem
      · rw [last_eq, List.getLast?_concat] at mem
        obtain rfl := Option.mem_some.1 mem
        exact ⟨rfl, rfl⟩
    · rw [flat, Derivation.value, List.map_append, List.map_singleton]
      have first := cut before (Text.between '[' ']' last ++ behind) eq
      have second := Span.cutInside_between (before ++ predicates.flatMap (Text.between '[' ']'))
        last behind (span_eq.trans (by rw [List.length_append, eq]))
      simp only [List.append_assoc] at first second ⊢
      rw [first, second]

/-! ## Steps -/

/-- What stands behind a front stands after an operand. -/
theorem Front.endsOperand (front : Front) (afterOperand : Bool) :
    Token.endsOperand afterOperand front.tokens = true := by
  obtain ⟨earlier, last, last_eq, ends⟩ := front.exists_last
  rw [Token.endsOperand, last_eq, List.getLast?_concat]
  cases lexeme_eq : last.lexeme <;> simp_all [Lexeme.endsStep, Lexeme.endsOperand]

/-- The text of a front is found where it stands in a longer text. -/
theorem Front.Spells.cut_move {front : Front} {text : Text} (h : front.Spells text)
    (before behind : Text) :
    (front.move (· + before.length) (· + before.length)).span.cut (before ++ text ++ behind) =
      text := by
  have slice := Text.slice_append before text behind
  rw [List.length_append, Nat.add_comm] at slice
  rw [Front.span_move, h.span_eq, Span.cut, Span.move, Nat.zero_add]
  exact slice

/-- Predicates start with a bracket if there are any. -/
theorem Step.eq_bracket_of_mem_head? {step : Step} {c : Char}
    (mem : c ∈ step.predicateText.head?) : c = '[' := by
  rw [predicateText] at mem
  cases predicates_eq : step.predicates with
  | nil => simp [predicates_eq] at mem
  | cons first others =>
    rw [predicates_eq] at mem
    exact (Option.mem_some.1 mem).symm

/-- **A step that can be read back is a step at any place of a text.** -/
theorem Step.ReadsAs.exists_step {step : Step} {front : Front} (h : step.ReadsAs front)
    (start : Nat) : ∃ derivation : Derivation (.level .step),
      Tokenized false start step.toText derivation.tokens ∧
        Node.outermost derivation.value = [derivation.value] ∧
        ∀ before behind : Text, before.length = start → ∃ span,
          Node.candidate? (before ++ step.toText ++ behind) derivation.value =
            .ok ⟨step, span⟩ := by
  obtain ⟨conditions, tokenized, cut⟩ :=
    exists_predicates h.isExpression (start + step.text.length)
  have moved := h.spells.tokenized.moved start
  rw [← Front.tokens_move] at moved
  obtain ⟨earlier, last, last_eq, ends⟩ := (front.move (· + start) (· + start)).exists_last
  refine ⟨(front.move (· + start) (· + start)).step conditions, ?_, Front.outermost_step _ _,
    fun before behind eq =>
      ⟨Node.span ((front.move (· + start) (· + start)).step conditions).value, ?_⟩⟩
  · rw [Front.tokens_step]
    refine moved.append ((Front.endsOperand _ false).symm ▸ tokenized)
      (Token.meets_of_endsStep last_eq ends fun c mem => ?_)
    rw [eq_bracket_of_mem_head? mem]
    simp
  · subst eq
    -- The own text and the texts of the predicates are found where they stand.
    have own := h.spells.cut_move before (step.predicateText ++ behind)
    have inside := cut (before ++ step.text) behind List.length_append
    refine Node.candidate?_eq_ok_iff.2 ⟨?_, ?_, rfl⟩
    · rw [toText, ← List.append_assoc before, List.append_assoc (before ++ step.text),
        Front.ownText_step, Front.abbreviation?_move, own, h.spells.abbreviation?]
      exact step.trim_text
    · rw [toText, ← List.append_assoc before, predicateText, Front.ownPredicates_step, inside]

/-- Only slashes are written with a slash at their start. -/
theorem Lexeme.Spelled.ne_slash {afterOperand : Bool} {lexeme : Lexeme} {c : Char} {more : Text}
    (h : lexeme.Spelled afterOperand c more) (starts : lexeme.startsStep = true) : c ≠ '/' := by
  rintro rfl
  cases h with
  | literal quotation => simp at quotation
  | pointed first | integer first => exact absurd first (by decide +kernel)
  | name first | nodeType first | word first => exact absurd first (by decide +kernel)
  | symbol mem =>
    obtain ⟨rfl, -⟩ | ⟨rfl, -⟩ : lexeme = .slash ∧ more = [] ∨ lexeme = .slashes ∧ more = ['/'] := by
      simpa [symbols] using mem
    · simp [startsStep] at starts
    · simp [startsStep] at starts

/-- A readable step starts with its first token, which is neither layout nor a slash. -/
theorem Step.ReadsAs.exists_head {step : Step} {front : Front} (h : step.ReadsAs front) :
    ∃ c rest, step.toText = c :: rest ∧ isLayout c = false ∧ c ≠ '/' := by
  obtain ⟨token, rest, eq, starts⟩ := front.exists_first
  have tokenized := h.spells.tokenized
  obtain ⟨first, head, -, -, start, -⟩ := front.covers tokenized.inOrder
  rw [eq] at tokenized head
  obtain rfl := Option.mem_some.1 head
  rw [h.spells.span_eq] at start
  obtain ⟨c, more, behind, text_eq, spelled⟩ := tokenized.exists_head start.symm
  refine ⟨c, more ++ behind ++ step.predicateText, ?_, spelled.not_isLayout,
    spelled.ne_slash starts⟩
  rw [Step.toText, text_eq, List.cons_append]

/-! ## Slashes -/

/-- For each step of a path whether a double slash stands in front of it, which is given for the
first one of a relative path. -/
def Node.deepsAfter (deep : Bool) : Node → List Bool
  | .binary _ left op right => left.deepsAfter deep ++ right.deepsAfter (op == ['/', '/'])
  | .absolute _ op relative => relative.deepsAfter (op == ['/', '/'])
  | .root _ _ => []
  | _ => [deep]

/-- A single step has no slashes in it. -/
theorem Derivation.deepsAfter_step (step : Derivation (.level .step)) (deep : Bool) :
    Node.deepsAfter deep step.value = [deep] := by
  cases step with
  | axisStep step => cases step <;> rfl
  | filterStep step =>
    cases step with
    | filtered base conditions =>
      show Node.deepsAfter deep (if conditions.value.isEmpty then _ else _) = _
      split
      · cases base <;> rfl
      · rfl

/-! ## Chains of steps -/

/-- A text is a chain of steps, with single slashes between them, wherever it stands. -/
def Text.Chains (text : Text) (start : Nat) (steps : List Step) : Prop :=
  ∃ derivation : Derivation (.level (.chain .steps)),
    Tokenized false start text derivation.tokens ∧
      Node.deepsAfter false derivation.value = List.replicate steps.length false ∧
      ∀ before behind : Text, before.length = start → ∃ candidates,
        (Node.outermost derivation.value).mapM (Node.candidate? (before ++ text ++ behind)) =
          .ok candidates ∧ candidates.map (·.step) = steps

/-- A step is a chain. -/
theorem Step.Readable.chains {step : Step} (h : step.Readable) (start : Nat) :
    step.toText.Chains start [step] := by
  obtain ⟨front, reads⟩ := h
  obtain ⟨derivation, tokenized, outermost, made⟩ := reads.exists_step start
  refine ⟨.operand derivation, tokenized, derivation.deepsAfter_step false,
    fun before behind eq => ?_⟩
  obtain ⟨span, one⟩ := made before behind eq
  refine ⟨[⟨step, span⟩], ?_, rfl⟩
  show (Node.outermost derivation.value).mapM _ = _
  rw [outermost, List.mapM_cons, one]
  rfl

/-- A chain goes on with a slash and a step. -/
theorem Text.Chains.concat {text : Text} {start : Nat} {steps : List Step} {step : Step}
    (h : text.Chains start steps) (readable : step.Readable) :
    (text ++ '/' :: step.toText).Chains start (steps ++ [step]) := by
  obtain ⟨left, left_tokenized, left_single, left_made⟩ := h
  obtain ⟨front, reads⟩ := readable
  obtain ⟨right, right_tokenized, outermost, right_made⟩ :=
    reads.exists_step (start + text.length + 1)
  obtain ⟨earlier, last, last_eq, ends⟩ := left.exists_last_steps (by decide)
  obtain ⟨c, rest, text_eq, -, no_slash⟩ := reads.exists_head
  refine ⟨.link left ⟨.slash, ⟨start + text.length, start + text.length + 1⟩⟩ rfl right, ?_, ?_,
    fun before behind eq => ?_⟩
  · -- No step starts with a slash, with which the one before it would be a double one.
    have stays : Lexeme.slash.StaysBefore '/' step.toText := by
      rw [Lexeme.StaysBefore, text_eq]
      simpa using no_slash
    exact left_tokenized.append (.cons_mark .slash '/' (by simp [Lexeme.symbols]) stays
      right_tokenized) (Token.meets_of_endsStep last_eq ends (by simp))
  · show Node.deepsAfter false left.value ++ Node.deepsAfter false right.value = _
    rw [left_single, right.deepsAfter_step, List.length_append, List.length_singleton,
      List.replicate_succ']
  · obtain ⟨candidates, made, steps_eq⟩ := left_made before ('/' :: step.toText ++ behind) eq
    obtain ⟨span, one⟩ := right_made (before ++ text ++ ['/']) behind (by
      rw [List.length_append, List.length_append, eq]
      rfl)
    refine ⟨candidates ++ [⟨step, span⟩], ?_, by rw [List.map_append, steps_eq]; rfl⟩
    show (Node.outermost left.value ++ Node.outermost right.value).mapM _ = _
    have text_eq : before ++ (text ++ '/' :: step.toText) ++ behind =
        before ++ text ++ ('/' :: step.toText ++ behind) := by simp
    have text_eq' : before ++ (text ++ '/' :: step.toText) ++ behind =
        before ++ text ++ ['/'] ++ step.toText ++ behind := by simp
    rw [List.mapM_append, outermost, text_eq, made, ← text_eq, text_eq', List.mapM_cons, one]
    rfl

/-- Steps behind a chain are a chain with it. -/
theorem Text.Chains.append {text : Text} {start : Nat} {steps more : List Step}
    (h : text.Chains start steps) (readable : ∀ step ∈ more, step.Readable) :
    (text ++ more.flatMap fun step => '/' :: step.toText).Chains start (steps ++ more) := by
  induction more generalizing text steps with
  | nil => simpa using h
  | cons step more ih =>
    have longer := ih (h.concat (readable step (by simp))) fun other mem =>
      readable other (by simp [mem])
    simpa using longer

/-! ## Paths -/

/-- A path is an expression. -/
def Derivation.ofPath (path : Derivation (.level .path)) : Derivation .expression :=
  .operand (.operand (.operand (.operand (.operand (.operand (.operand
    (.unnegated (.operand path))))))))

/-- The text of a chain of steps is a path with single slashes between its steps. -/
theorem Text.Chains.exists_tree {text : Text} {steps : List Step} (h : text.Chains 0 steps) :
    ∃ tree, Node.parse text = .ok tree ∧
      tree.deepsAfter false = List.replicate steps.length false := by
  obtain ⟨chain, tokenized, single, -⟩ := h
  exact ⟨chain.value,
    Node.parse_eq_ok_iff_exists.2 ⟨.ofPath (.relative chain), tokenized, rfl⟩, single⟩

/-- The text of a chain of steps is a path with these steps. -/
theorem Text.Chains.steps_eq {text : Text} {steps : List Step} (h : text.Chains 0 steps)
    (no_ogham : oghamSpace ∉ text) : Path.steps text = .ok steps := by
  obtain ⟨chain, tokenized, -, made⟩ := h
  have parsed : Node.parse text = .ok chain.value :=
    Node.parse_eq_ok_iff_exists.2 ⟨.ofPath (.relative chain), tokenized, rfl⟩
  obtain ⟨info, taken⟩ := PathInfo.exists_parse parsed no_ogham
  obtain ⟨found, -, found_made, locationSteps⟩ :=
    PathInfo.exists_found (.ofPath (.relative chain)) tokenized taken
  obtain ⟨candidates, eq, steps_eq⟩ := made [] [] rfl
  rw [List.nil_append, List.append_nil] at eq
  obtain rfl := Except.ok.inj (eq.symm.trans found_made)
  rw [Path.steps, taken]
  exact congrArg Except.ok (locationSteps.trans steps_eq)

/-- Texts between slashes are the first one and the others behind slashes. -/
theorem intercalate_slash (first : Text) (rest : List Text) :
    ['/'].intercalate (first :: rest) = first ++ rest.flatMap ('/' :: ·) := by
  induction rest generalizing first with
  | nil => simp [List.intercalate]
  | cons second rest ih =>
    rw [List.intercalate_cons_cons, ih, List.flatMap_cons]
    simp

/-- Readable steps between slashes hold no white space that a name could hold. -/
theorem no_ogham_intercalate {steps : List Step} (readable : ∀ step ∈ steps, step.Readable) :
    oghamSpace ∉ ['/'].intercalate (steps.map Step.toText) := by
  have clear : ∀ step ∈ steps, oghamSpace ∉ step.toText := by
    intro step mem
    obtain ⟨front, reads⟩ := readable step mem
    exact reads.no_ogham
  cases steps with
  | nil => simp [List.intercalate]
  | cons first rest =>
    rw [List.map_cons, intercalate_slash, List.flatMap_map, List.mem_append, List.mem_flatMap]
    rintro (mem | ⟨step, step_mem, mem⟩)
    · exact clear first (by simp) mem
    · rcases List.mem_cons.1 mem with eq | mem
      · exact absurd eq (by decide)
      · exact clear step (List.mem_cons_of_mem first step_mem) mem

/-- Readable steps between slashes are a chain. -/
theorem chains_intercalate {steps : List Step} (ne : steps ≠ [])
    (readable : ∀ step ∈ steps, step.Readable) :
    Text.Chains (['/'].intercalate (steps.map Step.toText)) 0 steps := by
  obtain ⟨first, rest, rfl⟩ := List.exists_cons_of_ne_nil ne
  rw [List.map_cons, intercalate_slash, List.flatMap_map]
  exact ((readable first (by simp)).chains 0).append fun step mem =>
    readable step (List.mem_cons_of_mem first mem)

/-- **Readable steps are read back from their texts between slashes.** -/
theorem Path.steps_intercalate {steps : List Step} (ne : steps ≠ [])
    (readable : ∀ step ∈ steps, step.Readable) :
    Path.steps (['/'].intercalate (steps.map Step.toText)) = .ok steps :=
  (chains_intercalate ne readable).steps_eq (no_ogham_intercalate readable)

/-- **Writing steps down and reading them back changes nothing.** Steps of any accepted texts, each
with its predicates and with slashes between them, are an accepted text, and its steps are exactly
these again. -/
theorem PathInfo.parse_intercalate {steps : List Step} (ne : steps ≠ [])
    (found : ∀ step ∈ steps, ∃ text info, PathInfo.parse text = .ok info ∧ oghamSpace ∉ text ∧
      step ∈ info.locationSteps) :
    ∃ info, PathInfo.parse (['/'].intercalate (steps.map Step.toText)) = .ok info ∧
      info.locationSteps = steps := by
  have readable : ∀ step ∈ steps, step.Readable := by
    intro step mem
    obtain ⟨text, info, parsed, no_ogham, step_mem⟩ := found step mem
    exact PathInfo.readable parsed no_ogham step step_mem
  obtain ⟨info, parsed, eq⟩ := bind_eq_ok_iff.1 (Path.steps_intercalate ne readable)
  exact ⟨info, parsed, Except.ok.inj eq⟩

/-- A primary expression with predicates and a step on an axis, cut out of two texts that are no
paths, are read back from between slashes. -/
theorem PathInfo.parse_intercalate_of_different_texts : ∃ (steps : List Step) (info : PathInfo),
    steps.map Step.toText = ["(a | b)[1][. = '/']".toList, "child::c[ @d ]".toList] ∧
      (∀ step ∈ steps, ∃ text info, PathInfo.parse text = .ok info ∧ oghamSpace ∉ text ∧
        step ∈ info.locationSteps) ∧
      PathInfo.parse "(a | b)[1][. = '/']/child::c[ @d ]".toList = .ok info ∧
      info.locationSteps = steps := by
  let group : Step :=
    ⟨"(a | b)".toList, ["1".toList, ". = '/'".toList], by decide +kernel, by decide⟩
  let child : Step := ⟨"child::c".toList, [" @d ".toList], by decide +kernel, by decide⟩
  have group_found : Path.steps "- (a | b) [1] [. = '/'] / e".toList =
      .ok [group, ⟨"e".toList, [], by decide +kernel, by decide⟩] := by decide +kernel
  have child_found : Path.steps "2 + child::c[ @d ]".toList =
      .ok [⟨"2".toList, [], by decide +kernel, by decide⟩, child] := by decide +kernel
  obtain ⟨groupInfo, group_parsed, group_eq⟩ := bind_eq_ok_iff.1 group_found
  obtain ⟨childInfo, child_parsed, child_eq⟩ := bind_eq_ok_iff.1 child_found
  have found : ∀ step ∈ [group, child], ∃ text info, PathInfo.parse text = .ok info ∧
      oghamSpace ∉ text ∧ step ∈ info.locationSteps := by
    intro step mem
    rcases List.mem_cons.1 mem with rfl | mem
    · exact ⟨_, groupInfo, group_parsed, by decide +kernel, by simp [Except.ok.inj group_eq]⟩
    · rw [List.mem_singleton.1 mem]
      exact ⟨_, childInfo, child_parsed, by decide +kernel, by simp [Except.ok.inj child_eq]⟩
  obtain ⟨info, parsed, eq⟩ := PathInfo.parse_intercalate (List.cons_ne_nil _ _) found
  exact ⟨[group, child], info, rfl, found, parsed, eq⟩

end LocationPath
