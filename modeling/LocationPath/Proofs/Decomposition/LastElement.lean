import LocationPath.Proofs.Decomposition.Cutting
import LocationPath.Proofs.Decomposition.LastAttribute
import LocationPath.Proofs.Decomposition.Readable

/-! # The path to the last element

If an expression is a path that ends on an attribute step, then the text in front of this step is the
rest of the path with a slash behind it. The slash is dropped from the end of the text, and what is
left has the steps of the path without the attribute. But layout behind the slash protects it, and no
expression ends with a slash behind a step.

Main definitions: `Node.attributeEnd?` and `Derivation.EndsOn`. Main results:
`Derivation.exists_endsOn`, `Derivation.not_isExpression_of_slash` and
`PathInfo.parse_pathToLastElement`. -/

namespace LocationPath

/-! ## Paths that end on an attribute -/

/-- The attribute step that a path ends on, with a slash and other steps in front of it. -/
def Node.attributeEnd? : Node → Option Node
  | .binary _ _ op right =>
    if (op = ['/'] ∨ op = ['/', '/']) ∧ right.isAttributeStep = true then some right else none
  | .absolute _ _ relative => relative.attributeEnd?
  | _ => none

/-- No step ends with an operator of a chain. -/
theorem Chain.endsStep_of_joins {chain : Chain} {op : Lexeme} (joins : chain.joins op = true) :
    op.endsStep = false := by
  cases op <;> first | rfl | (cases chain <;> contradiction)

namespace Derivation

/-- An expression is a path, a slash and an attribute step. -/
structure EndsOn {level : Level} (derivation : Derivation (.level level)) (last : Node)
    (path : Derivation (.level .path)) (slash : Token) (step : Derivation (.level .step)) : Prop where
  /-- The slash is single or double. -/
  isSlash : slash.lexeme = .slash ∨ slash.lexeme = .slashes
  /-- The path does not end with a slash. -/
  endsStep : ∀ token ∈ path.tokens.getLast?, token.lexeme.endsStep = true
  tokens_eq : derivation.tokens = path.tokens ++ slash :: step.tokens
  outermost_eq : Node.outermost derivation.value = Node.outermost path.value ++ [last]
  /-- The step is the last one. -/
  value_eq : step.value = last
  isAttributeStep : last.isAttributeStep = true

/-- A single step is no path that ends on an attribute. -/
theorem attributeEnd?_step (step : Derivation (.level .step)) :
    Node.attributeEnd? step.value = none := by
  cases step with
  | axisStep step => cases step <;> rfl
  | filterStep step =>
    cases step with
    | filtered base conditions =>
      show Node.attributeEnd? (if conditions.value.isEmpty then _ else _) = _
      split
      · cases base <;> rfl
      · rfl

/-- Only a chain of steps has slashes between its operands. -/
theorem eq_steps_of_joins {chain : Chain} {lexeme : Lexeme} (joins : chain.joins lexeme = true)
    (slash : lexeme.value.plain = ['/'] ∨ lexeme.value.plain = ['/', '/']) :
    chain = .steps ∧ (lexeme = .slash ∨ lexeme = .slashes) := by
  cases lexeme with
  | slash | slashes => exact ⟨(Option.some.inj (Chain.joins_iff.1 joins)).symm, by simp⟩
  | literal | float | integer | name | nodeType => cases chain <;> contradiction
  | word word => cases word <;> exact absurd slash (by decide)
  | _ => exact absurd slash (by decide)

/-- What `exists_endsOn` says of one derivation. -/
def FindsEnd : {phrase : Phrase} → Derivation phrase → Prop
  | .level _, derivation => ∀ last, Node.attributeEnd? derivation.value = some last →
    ∃ path slash step, derivation.EndsOn last path slash step
  | _, _ => True

/-- A chain of steps that ends on an attribute step goes on with it behind a shorter chain. -/
theorem EndsOn.of_link {level : Level} {derivation : Derivation (.level level)} {last : Node}
    {left : Derivation (.level (.chain .steps))} {op : Token} {right : Derivation (.level .step)}
    (path : Derivation (.level .path)) (front : List Token)
    (joins : Chain.steps.joins op.lexeme = true)
    (h : Node.attributeEnd? (link left op joins right).value = some last)
    (path_eq : path.tokens = front ++ left.tokens)
    (tokens_eq : derivation.tokens = front ++ (left.tokens ++ op :: right.tokens))
    (outermost_path : Node.outermost path.value = Node.outermost left.value)
    (outermost_eq : Node.outermost derivation.value =
      Node.outermost left.value ++ Node.outermost right.value) :
    derivation.EndsOn last path op right := by
  simp only [value, Node.attributeEnd?] at h
  split at h
  · rename_i found
    obtain rfl := Option.some.inj h
    obtain ⟨earlier, final, final_eq, ends⟩ := left.exists_last_steps (by decide)
    refine ⟨(eq_steps_of_joins joins found.1).2, fun token mem => ?_, ?_, ?_, rfl, found.2⟩
    · rw [path_eq, final_eq, ← List.append_assoc, List.getLast?_concat] at mem
      exact Option.mem_some.1 mem ▸ ends
    · rw [tokens_eq, path_eq, List.append_assoc]
    · obtain ⟨front, conditions, rfl⟩ := Front.exists_step right
      rw [outermost_eq, outermost_path, Front.outermost_step]
      rfl
  · contradiction

/-- Steps that end on an attribute step are more than one. -/
theorem exists_link_of_attributeEnd? {steps : Derivation (.level (.chain .steps))} {last : Node}
    (h : Node.attributeEnd? steps.value = some last) :
    ∃ left op joins right, steps = .link left op joins right := by
  cases steps with
  | operand step => exact absurd ((attributeEnd?_step step).symm.trans h) (by simp)
  | link left op joins right => exact ⟨left, op, joins, right, rfl⟩

/-- **An expression that ends on an attribute step is a path, a slash and this step.** -/
theorem exists_endsOn {phrase : Phrase} (derivation : Derivation phrase) : derivation.FindsEnd := by
  induction derivation with
  | operand only ih | unnegated only ih | relative only ih =>
    intro last h
    obtain ⟨path, slash, step, ends⟩ := ih last h
    exact ⟨path, slash, step, ends.isSlash, ends.endsStep, ends.tokens_eq, ends.outermost_eq,
      ends.value_eq, ends.isAttributeStep⟩
  | @link chain left op joins right =>
    intro last h
    have slashed : op.lexeme.value.plain = ['/'] ∨ op.lexeme.value.plain = ['/', '/'] := by
      simp only [value, Node.attributeEnd?] at h
      split at h
      · rename_i found
        exact found.1
      · contradiction
    obtain ⟨rfl, -⟩ := eq_steps_of_joins joins slashed
    exact ⟨.relative left, op, right, .of_link (.relative left) [] joins h rfl rfl rfl rfl⟩
  | absolute slash steps =>
    intro last h
    obtain ⟨left, op, joins, right, rfl⟩ := exists_link_of_attributeEnd? h
    exact ⟨.absolute slash left, op, right,
      .of_link (.absolute slash left) [⟨.slash, slash⟩] joins h rfl rfl rfl rfl⟩
  | anywhere slashes steps =>
    intro last h
    obtain ⟨left, op, joins, right, rfl⟩ := exists_link_of_attributeEnd? h
    exact ⟨.anywhere slashes left, op, right,
      .of_link (.anywhere slashes left) [⟨.slashes, slashes⟩] joins h rfl rfl rfl rfl⟩
  -- The value is no path, or the bare root.
  | negated | root => exact fun last h => by contradiction
  | axisStep step | filterStep step =>
    intro last h
    rw [attributeEnd?_step] at h
    contradiction
  | _ => trivial

/-- What `no_slash_behind_step` says of one derivation. -/
def SlashAlone : {phrase : Phrase} → Derivation phrase → Prop
  | .level _, derivation => ∀ front span, derivation.tokens = front ++ [⟨.slash, span⟩] →
    ∀ token ∈ front.getLast?, token.lexeme.endsStep = false
  | _, _ => True

/-- A slash at the end of what stands behind a token that ends no step is the root. -/
private theorem SlashAlone.of_behind {level part : Level} {derivation : Derivation (.level level)}
    {inner : Derivation (.level part)} {earlier : List Token} {first : Token}
    (h : inner.SlashAlone) (tokens_eq : derivation.tokens = earlier ++ first :: inner.tokens)
    (no_end : first.lexeme.endsStep = false) : derivation.SlashAlone := by
  intro front span eq token mem
  obtain ⟨inner_front, final, final_eq, -⟩ := inner.exists_last
  rw [tokens_eq, final_eq, ← List.cons_append, ← List.append_assoc] at eq
  obtain ⟨rfl, final_slash⟩ := List.append_inj' eq rfl
  obtain rfl := List.singleton_inj.1 final_slash
  -- What stands in front of the slash is the first token, or it is in the inner phrase.
  obtain rfl | mem := eq_or_mem_of_mem_getLast? mem
  · exact no_end
  · exact h inner_front span final_eq token mem

/-- A phrase that ends as a step does has no slash at its end. -/
private theorem slashAlone_of_exists_last {level : Level} {derivation : Derivation (.level level)}
    (lt : level.height < 2) : derivation.SlashAlone := by
  intro front span eq
  obtain ⟨earlier, final, final_eq, ends⟩ := derivation.exists_last_steps lt
  rw [final_eq] at eq
  obtain rfl := List.singleton_inj.1 (List.append_inj' eq rfl).2
  contradiction

/-- **A slash at the end of an expression is the root**, so it does not stand behind a step. -/
theorem slashAlone {phrase : Phrase} (derivation : Derivation phrase) : derivation.SlashAlone := by
  induction derivation with
  | operand only ih | unnegated only ih | relative only ih => exact ih
  | @link chain left op joins right ihl ihr =>
    exact ihr.of_behind rfl (Chain.endsStep_of_joins joins)
  | negated minus negative ih => exact ih.of_behind (List.nil_append _).symm rfl
  | root slash =>
    -- The slash is the only token.
    intro front span eq token mem
    replace eq : [] ++ [⟨.slash, slash⟩] = front ++ [⟨.slash, span⟩] := eq
    obtain ⟨rfl, -⟩ := List.append_inj' eq rfl
    contradiction
  | absolute slash steps ih | anywhere slash steps ih =>
    exact ih.of_behind (List.nil_append _).symm rfl
  | axisStep | filterStep => exact slashAlone_of_exists_last (by decide)
  | _ => trivial

/-- A path with a slash behind it is no expression. -/
theorem not_isExpression_of_slash {text : Text} {path : Derivation (.level .path)} {slash : Token}
    (isSlash : slash.lexeme = .slash ∨ slash.lexeme = .slashes)
    (endsStep : ∀ token ∈ path.tokens.getLast?, token.lexeme.endsStep = true)
    (tokenized : Tokenized false 0 text (path.tokens ++ [slash])) : ¬ text.IsExpression := by
  rintro ⟨tree, parsed⟩
  obtain ⟨derivation, tokenized', -⟩ := Node.parse_eq_ok_iff_exists.1 parsed
  -- The tokens of a text are unique.
  have tokens_eq : derivation.tokens = path.tokens ++ [slash] := by
    have eq := (tokenized_iff.1 tokenized').symm.trans (tokenized_iff.1 tokenized)
    exact (Lexing.mk.inj eq).1
  obtain ⟨earlier, final, final_eq, ends⟩ := derivation.exists_last
  rw [tokens_eq] at final_eq
  obtain rfl := List.singleton_inj.1 (List.append_inj' final_eq rfl).2
  obtain ⟨lexeme, span⟩ := slash
  obtain rfl | rfl : lexeme = .slash ∨ lexeme = .slashes := isSlash
  · obtain ⟨front, last, last_eq, -⟩ := path.exists_last
    have last_mem : last ∈ path.tokens.getLast? := by rw [last_eq, List.getLast?_concat]; rfl
    have no_end := derivation.slashAlone path.tokens span tokens_eq last last_mem
    rw [endsStep last last_mem] at no_end
    contradiction
  · contradiction

end Derivation

/-! ## The text in front of the attribute -/

/-- Without its last element a list is what stands in front of it. -/
theorem withoutIndex_length {α : Type} (list : List α) (last : α) :
    withoutIndex (list ++ [last]) list.length = list := by
  rw [withoutIndex_natCast (by simp), List.eraseIdx_append_of_length_le (Nat.le_refl _),
    Nat.sub_self, List.eraseIdx_cons_zero, List.append_nil]

/-- What is recorded of an attribute step that is the last step of the path. -/
theorem PathInfo.Records.of_concat {info : PathInfo} {text : Text} {earlier : List Node} {last : Node}
    (h : info.Records text (earlier ++ [last])) (signed : last.isAttributeStep = true) :
    info.attributeIndex = some ↑earlier.length ∧
      info.pathToLastElement = Text.dropTrailing '/' (text.take last.span.start) := by
  have own := Node.attributeSteps_of_isAttributeStep signed
  generalize nodes_eq : earlier ++ [last] = nodes at h
  cases h with
  | nothing none_found =>
    rw [none_found last (by simp [← nodes_eq])] at own
    contradiction
  | @last front later node inner latest nodes_eq' none_later last_eq noted name index path =>
    -- An attribute step later than the last one would be at the end.
    obtain rfl : later = [] := by
      rcases List.eq_nil_or_concat' later with empty | ⟨middle, final, rfl⟩
      · exact empty
      · rw [nodes_eq', ← List.cons_append, ← List.append_assoc] at nodes_eq
        obtain rfl := List.singleton_inj.1 (List.append_inj' nodes_eq rfl).2
        rw [none_later last (by simp)] at own
        contradiction
    obtain ⟨rfl, single⟩ := List.append_inj' (nodes_eq.trans nodes_eq') rfl
    obtain rfl := List.singleton_inj.1 single
    rw [own] at last_eq
    obtain rfl := Option.some.inj last_eq
    rw [signed, if_pos rfl] at index
    exact ⟨index, path⟩

/-- The text in front of the attribute step is the path with the slash. -/
theorem Derivation.EndsOn.tokenized_take {level : Level} {derivation : Derivation (.level level)}
    {last : Node} {path : Derivation (.level .path)} {slash : Token}
    {step : Derivation (.level .step)} (h : derivation.EndsOn last path slash step) {text : Text}
    (tokenized : Tokenized false 0 text derivation.tokens) :
    Tokenized false 0 (text.take last.span.start) (path.tokens ++ [slash]) := by
  obtain ⟨isSlash, -, tokens_eq, -, rfl, -⟩ := h
  rw [tokens_eq, List.append_cons] at tokenized
  obtain ⟨-, order, cross⟩ := Token.InOrder.append_iff.1 tokenized.inOrder
  have covers : (Node.span step.value).Covers step.tokens := (step.nests order).1
  have lt := covers.start_lt_stop order
  obtain ⟨first, head, final, mem, start_eq, stop_eq⟩ := id covers
  have le := (tokenized.within final (by simp [List.mem_of_getLast? mem])).2
  -- The text is cut in front of the first token of the step, where no other one is cut apart.
  have taken : Tokenized false 0 (text.take ((Node.span step.value).start - 0))
      (path.tokens ++ [slash]) := by
    refine tokenized.take (fun token token_mem => ?_) (fun token token_mem => ?_) (by omega) ?_
    · have := cross token token_mem first (List.mem_of_head? head)
      omega
    · exact covers.start_le order token_mem
    · intro token token_mem name type
      rw [List.getLast?_concat] at token_mem
      obtain rfl := Option.mem_some.1 token_mem
      rw [type] at isSlash
      simp at isSlash
  rwa [Nat.sub_zero] at taken

/-- In front of a slash at the end stands the text of the path, and behind it is layout. -/
theorem Derivation.exists_front {text : Text} {path : Derivation (.level .path)} {slash : Token}
    (isSlash : slash.lexeme = .slash ∨ slash.lexeme = .slashes)
    (tokenized : Tokenized false 0 text (path.tokens ++ [slash])) : ∃ front marks gap : Text,
      text = front ++ marks ++ gap ∧ marks.getLast? = some '/' ∧ (∀ c ∈ marks, c = '/') ∧
        gap.all isLayout = true ∧ Tokenized false 0 front path.tokens := by
  have no_type := path.no_type_of_mem_getLast?
  obtain ⟨lexeme, span⟩ := slash
  obtain rfl | rfl : lexeme = .slash ∨ lexeme = .slashes := isSlash
  · obtain ⟨front, gap, rfl, -, front_tokenized, rest⟩ :=
      tokenized.exists_symbol '/' [] (by simp [Lexeme.symbols]) no_type
    exact ⟨front, ['/'], gap, rfl, rfl, by simp, rest.layout_of_nil, front_tokenized⟩
  · obtain ⟨front, gap, rfl, -, front_tokenized, rest⟩ :=
      tokenized.exists_symbol '/' ['/'] (by simp [Lexeme.symbols]) no_type
    exact ⟨front, ['/', '/'], gap, rfl, rfl, by simp, rest.layout_of_nil, front_tokenized⟩

/-- **The text of a path has the steps of the path**, also where it stands in front of other text. -/
theorem Derivation.exists_steps_of_front {front behind : Text} (path : Derivation (.level .path))
    (tokenized : Tokenized false 0 front path.tokens) (no_ogham : oghamSpace ∉ front)
    {candidates : List Candidate}
    (made : (Node.outermost path.value).mapM (Node.candidate? (front ++ behind)) = .ok candidates) :
    ∃ info, PathInfo.parse front = .ok info ∧ info.locationSteps = candidates.map (·.step) := by
  obtain ⟨whole, tokens_eq, value_eq⟩ := path.exists_expression
  rw [← tokens_eq] at tokenized
  have parsed := Node.parse_eq_ok_iff_exists.2 ⟨whole, tokenized, rfl⟩
  obtain ⟨info, parsed_info⟩ := PathInfo.exists_parse parsed no_ogham
  obtain ⟨found, -, found_made, steps_eq⟩ := PathInfo.exists_found whole tokenized parsed_info
  refine ⟨info, parsed_info, ?_⟩
  have row := Node.outermost_row (whole.nests tokenized.inOrder).2
  -- The steps of the path lie in the text that is kept, so nothing behind it matters to them.
  have inside : ∀ node ∈ Node.outermost whole.value, (Node.span node).stop ≤ front.length := by
    intro node mem
    obtain ⟨-, -, last, last_mem, -, stop_eq⟩ := (row.nested node mem).root.on
    have := (tokenized.within last last_mem).2
    omega
  rw [← value_eq, Node.mapM_candidate?_append row.nested inside] at made
  rw [steps_eq, Except.ok.inj (found_made.symm.trans made)]

/-- **The path to the last element.** If an expression is a path that ends on an attribute step, and
the sign of the attribute axis stands right behind a slash, then the path to the last element is an
accepted text, and its steps are those of the whole path without the attribute. If there is layout
between the slash and the sign then the slash is left, and the path to the last element is no
expression at all. -/
theorem PathInfo.parse_pathToLastElement {text : Text} {tree last : Node}
    (parsed : Node.parse text = .ok tree) (ends : tree.attributeEnd? = some last)
    (no_ogham : oghamSpace ∉ text) : ∃ info, PathInfo.parse text = .ok info ∧
      ((text.take last.span.start).getLast? = some '/' → ∃ leading,
        PathInfo.parse info.pathToLastElement = .ok leading ∧ leading.locationSteps = info.steps) ∧
      ((text.take last.span.start).getLast? ≠ some '/' → ¬ info.pathToLastElement.IsExpression) := by
  obtain ⟨info, taken⟩ := PathInfo.exists_parse parsed no_ogham
  obtain ⟨derivation, tokenized, rfl⟩ := Node.parse_eq_ok_iff_exists.1 parsed
  obtain ⟨path, slash, step, found⟩ := derivation.exists_endsOn last ends
  obtain ⟨collection, -, made, steps_eq⟩ := PathInfo.exists_found derivation tokenized taken
  have records := PathInfo.records derivation tokenized taken
  rw [found.outermost_eq] at made records
  obtain ⟨index, path_eq⟩ := records.of_concat found.isAttributeStep
  -- The steps are those of the path and the attribute step.
  obtain ⟨firsts, final, lasts, firsts_made, -, lasts_made, candidates_eq⟩ :=
    Node.exists_split_of_mapM made
  obtain rfl : [] = lasts := Except.ok.inj lasts_made
  have left : info.steps = firsts.map (·.step) := by
    rw [steps, index, steps_eq, candidates_eq, List.map_append,
      ← Node.length_of_mapM_candidate? firsts_made, ← List.length_map (·.step), List.map_singleton]
    exact withoutIndex_length _ _
  obtain ⟨front, marks, gap, text_eq, marks_last, marks_eq, layout, front_tokenized⟩ :=
    Derivation.exists_front found.isSlash (found.tokenized_take tokenized)
  have text_split := (List.take_append_drop last.span.start text).symm
  refine ⟨info, taken, ?_⟩
  rw [path_eq]
  -- Slashes are dropped from the end of the text, so they stay if there is layout behind them.
  rcases List.eq_nil_or_concat' gap with rfl | ⟨gap, blank, rfl⟩
  · have ends_slash : (text.take last.span.start).getLast? = some '/' := by
      rw [text_eq, List.append_nil, List.getLast?_append, marks_last]
      rfl
    refine ⟨fun _ => ?_, fun ne => absurd ends_slash ne⟩
    rw [text_eq, List.append_nil, Text.dropTrailing_append front marks_eq,
      Text.dropTrailing_eq_self (front_tokenized.getLast?_ne_slash found.endsStep)]
    rw [text_eq, List.append_nil, List.append_assoc] at text_split
    rw [text_split] at firsts_made no_ogham
    rw [left]
    exact path.exists_steps_of_front front_tokenized
      (fun mem => no_ogham (List.mem_append_left _ mem)) firsts_made
  · have ends_layout : (text.take last.span.start).getLast? ≠ some '/' := by
      rw [text_eq, ← List.append_assoc, List.getLast?_concat]
      rintro eq
      obtain rfl := Option.some.inj eq
      simp [isLayout] at layout
    refine ⟨fun eq => absurd eq ends_layout, fun _ => ?_⟩
    rw [Text.dropTrailing_eq_self ends_layout]
    exact Derivation.not_isExpression_of_slash found.isSlash found.endsStep
      (found.tokenized_take tokenized)

/-- A double slash with layout in front of it is left out, and so is the layout of the predicates of
the attribute. -/
theorem PathInfo.parse_pathToLastElement_of_slashes : ∃ info leading,
    PathInfo.parse "/$x/(a | b) [@c] //@d[ 1 ]".toList = .ok info ∧
      info.pathToLastElement = "/$x/(a | b) [@c] ".toList ∧
      info.steps.map Step.toText = ["$x".toList, "(a | b)[@c]".toList] ∧
      PathInfo.parse info.pathToLastElement = .ok leading ∧ leading.locationSteps = info.steps := by
  have ending : (Node.parse "/$x/(a | b) [@c] //@d[ 1 ]".toList).map
      (·.attributeEnd?.map (·.span)) = .ok (some ⟨19, 26⟩) := by decide +kernel
  have fields : (PathInfo.parse "/$x/(a | b) [@c] //@d[ 1 ]".toList).map (fun info =>
      (info.pathToLastElement, info.steps.map Step.toText)) =
        .ok ("/$x/(a | b) [@c] ".toList, ["$x".toList, "(a | b)[@c]".toList]) := by
    decide +kernel
  obtain ⟨tree, parsed, ending⟩ := map_eq_ok_iff.1 ending
  obtain ⟨last, ends, span_eq⟩ := Option.map_eq_some_iff.1 ending
  obtain ⟨info, taken, accepted, -⟩ :=
    PathInfo.parse_pathToLastElement parsed ends (by decide +kernel)
  obtain ⟨leading, again, steps_eq⟩ := accepted (by rw [span_eq]; decide +kernel)
  rw [taken] at fields
  obtain ⟨path_eq, texts_eq⟩ := Prod.mk.inj (Except.ok.inj fields)
  exact ⟨info, leading, taken, path_eq, texts_eq, again, steps_eq⟩

/-- With a blank in front of the attribute the path to the last element is no expression. -/
theorem PathInfo.pathToLastElement_not_isExpression : ∃ tree last info,
    Node.parse "a/ @b".toList = .ok tree ∧ tree.attributeEnd? = some last ∧
      oghamSpace ∉ "a/ @b".toList ∧ PathInfo.parse "a/ @b".toList = .ok info ∧
      info.pathToLastElement = "a/ ".toList ∧ ¬ info.pathToLastElement.IsExpression := by
  have ending : (Node.parse "a/ @b".toList).map (·.attributeEnd?.isSome) = .ok true := by
    decide +kernel
  have path : (PathInfo.parse "a/ @b".toList).map (·.pathToLastElement) = .ok "a/ ".toList := by
    decide +kernel
  have refused : (Node.parse "a/ ".toList).toOption.isNone = true := by decide +kernel
  obtain ⟨tree, parsed, ends⟩ := map_eq_ok_iff.1 ending
  obtain ⟨last, ends⟩ := Option.isSome_iff_exists.1 ends
  obtain ⟨info, taken, path_eq⟩ := map_eq_ok_iff.1 path
  refine ⟨tree, last, info, parsed, ends, by decide +kernel, taken, path_eq, ?_⟩
  rw [path_eq]
  rintro ⟨other, accepted⟩
  rw [accepted] at refused
  contradiction

end LocationPath
