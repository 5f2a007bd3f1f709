import LocationPath.Proofs.Decomposition.Cutting
import LocationPath.Proofs.Decomposition.Joined
import LocationPath.Proofs.Decomposition.Traits

/-! # Another condition in a predicate

The condition of a predicate may be replaced by any expression, and only this predicate of this step
changes: the tokens behind the closing bracket are the same ones at other places.

Main definitions: `Span.replaceInside` and `Node.Replaced`. Main results:
`Derivation.exists_replaced` and `PathInfo.parse_replaceInside`. -/

namespace LocationPath

/-! ## Between brackets -/

/-- A text with something else inside of the brackets at a place. -/
def Span.replaceInside (span : Span) (inner text : Text) : Text :=
  text.take (span.start + 1) ++ inner ++ text.drop (span.stop - 1)

/-- What is between brackets is replaced. -/
theorem Span.replaceInside_between (before inner inner' behind : Text) {span : Span}
    (eq : span = ⟨before.length, before.length + (Text.between '[' ']' inner).length⟩) :
    span.replaceInside inner' (before ++ Text.between '[' ']' inner ++ behind) =
      before ++ Text.between '[' ']' inner' ++ behind := by
  have stop : before.length + (Text.between '[' ']' inner).length - 1 =
      (before ++ '[' :: inner).length := by
    simp [Text.between]
  have front : (before ++ Text.between '[' ']' inner ++ behind).take (before.length + 1) =
      before ++ ['['] := by
    simp [Text.between, List.take_append]
  have rest : (before ++ Text.between '[' ']' inner ++ behind).drop
      (before ++ '[' :: inner).length = ']' :: behind := by
    simp [Text.between]
  rw [eq, replaceInside, stop, front, rest]
  simp [Text.between]

/-- **A predicate is found in the text**, with the brackets around its condition. -/
theorem Tokenized.exists_between {text : Text} {before behind : List Token}
    {predicate : Derivation .predicate}
    (no_type : ∀ token ∈ before.getLast?, ∀ name, token.lexeme ≠ .nodeType name)
    (h : Tokenized false 0 text (before ++ (predicate.tokens ++ behind))) :
    ∃ front inner rest, text = front ++ Text.between '[' ']' inner ++ rest ∧
      Node.span predicate.value =
        ⟨front.length, front.length + (Text.between '[' ']' inner).length⟩ ∧
      Tokenized false 0 front before ∧
        Tokenized true (front ++ Text.between '[' ']' inner).length rest behind := by
  cases predicate with
  | predicate opening condition closing =>
    have tokens_eq : before ++ ((Derivation.predicate opening condition closing).tokens ++ behind) =
        before ++ ⟨.openBracket, opening⟩ ::
          (condition.tokens ++ ⟨.closeBracket, closing⟩ :: behind) := by
      simp [Derivation.tokens]
    rw [tokens_eq] at h
    -- The text is split at the opening bracket, and what is behind it at the closing one.
    obtain ⟨front, rest, rfl, rfl, front_tokenized, h⟩ :=
      h.exists_symbol '[' [] (by simp [Lexeme.symbols]) no_type
    obtain ⟨inner, rest, rfl, rfl, -, rest_tokenized⟩ :=
      h.exists_symbol ']' [] (by simp [Lexeme.symbols]) condition.no_type_of_mem_getLast?
    have stop : 0 + (front ++ ['[']).length + (inner ++ [']']).length =
        (front ++ Text.between '[' ']' inner).length := by
      simp only [Text.between, List.length_append, List.length_cons, List.length_nil]
      omega
    refine ⟨front, inner, rest, by simp [Text.between], ?_, front_tokenized, stop ▸ rest_tokenized⟩
    rw [← List.length_append, ← stop]
    exact congrArg (Span.mk · _) (Nat.zero_add front.length)

/-- **Another predicate may stand in the same place**, and what is behind it moves. -/
theorem Tokenized.exists_replaced {front inner inner' rest : Text} {before behind : List Token}
    (front_tokenized : Tokenized false 0 front before)
    (rest_tokenized : Tokenized true (front ++ Text.between '[' ']' inner).length rest behind)
    (ends : ∀ token ∈ before.getLast?, token.lexeme.endsStep = true)
    (accepted : inner'.IsExpression) : ∃ predicate : Derivation .predicate,
      Node.span predicate.value =
        ⟨front.length, front.length + (Text.between '[' ']' inner').length⟩ ∧
      Tokenized false 0 (front ++ Text.between '[' ']' inner' ++ rest) (before ++
        (predicate.tokens ++ behind.map (Token.shift (front ++ Text.between '[' ']' inner).length
          (front ++ Text.between '[' ']' inner').length))) := by
  -- The text behind is put to the closing bracket first, since it may start with layout.
  obtain ⟨predicate, span_eq, put⟩ := accepted.exists_predicate front.length
  refine ⟨predicate, span_eq, ?_⟩
  have moved := rest_tokenized.shift _ (front ++ Text.between '[' ']' inner').length (Nat.le_refl _)
  rw [Nat.add_sub_cancel_left] at moved
  rw [List.append_assoc]
  refine front_tokenized.append ?_ fun token mem c c_mem => ?_
  · rw [Nat.zero_add]
    exact put _ rest _ (by rwa [← List.length_append])
  · obtain rfl : '[' = c := Option.mem_some.1 c_mem
    exact Lexeme.meets_of_endsStep (ends token mem) (by simp)

/-! ## A step with another predicate -/

namespace Node

/-- In a text that is `front`, `inner` in brackets and `rest` the brackets are a predicate of a step.
With `inner'` in the brackets another node stands for the step, which has another predicate there
and is the same apart from this. -/
structure Replaced (front inner inner' rest : Text) (node node' : Node)
    (firsts lasts : List Node) (predicate : Node) : Prop where
  span_eq : predicate.span = ⟨front.length, front.length + (Text.between '[' ']' inner).length⟩
  ownPredicates_eq : node.ownPredicates = firsts ++ predicate :: lasts
  /-- The predicates behind the new one are moved. -/
  exists_ownPredicates : ∃ predicate' : Node,
    predicate'.span = ⟨front.length, front.length + (Text.between '[' ']' inner').length⟩ ∧
      node'.ownPredicates = firsts ++ predicate' ::
        lasts.map (mapSpan (Span.shift (front ++ Text.between '[' ']' inner).length
          (front ++ Text.between '[' ']' inner').length))
  /-- The own text stands in front of all predicates. -/
  ownText_eq (behind behind' : Text) :
    node'.ownText (front ++ behind') = node.ownText (front ++ behind)
  traits_eq : node'.traits = node.traits

end Node

namespace Front

/-- A text that closes with a step closes with a token that can end one. -/
theorem endsStep_of_mem_getLast? (head : Front) (conditions : Derivation .predicates)
    (before : List Token) : ∀ token ∈ (before ++ (head.step conditions).tokens).getLast?,
      token.lexeme.endsStep = true := by
  intro token mem
  obtain ⟨earlier, last, last_eq, ends⟩ := (head.step conditions).exists_last_steps (by decide)
  rw [last_eq, ← List.append_assoc, List.getLast?_concat] at mem
  exact Option.mem_some.1 mem ▸ ends

/-- The own text of a step is that of its front, whatever is behind the front. -/
theorem ownText_append {text : Text} {before : List Token} {head : Front}
    {preceding : Derivation .predicates}
    (tokenized : Tokenized false 0 text (before ++ (head.step preceding).tokens))
    (conditions : Derivation .predicates) (behind : Text) :
    Node.ownText (text ++ behind) (head.step conditions).value =
      head.abbreviation?.getD (head.span.cut text) := by
  rw [tokens_step] at tokenized
  obtain ⟨-, -, last, mem, -, stop_eq⟩ := head.covers tokenized.inOrder.right.left
  have within := (tokenized.within last (by simp [List.mem_of_getLast? mem])).2
  rw [ownText_step, Span.cut, Span.cut, Text.slice_append_of_le _ (by omega)]

end Front

/-- **Another expression may stand between the brackets of a predicate**: the text is accepted, and its
steps are the same but for this predicate. -/
theorem Derivation.exists_replaced {text inner' : Text} (derivation : Derivation .expression)
    (tokenized : Tokenized false 0 text derivation.tokens) {earlier later : List Node} {node : Node}
    (outermost_eq : Node.outermost derivation.value = earlier ++ node :: later)
    {firsts lasts : List Node} {predicate : Node}
    (own_eq : node.ownPredicates = firsts ++ predicate :: lasts) (accepted : inner'.IsExpression) :
    ∃ front inner rest tree node', text = front ++ Text.between '[' ']' inner ++ rest ∧
      Node.Replaced front inner inner' rest node node' firsts lasts predicate ∧
      Node.parse (front ++ Text.between '[' ']' inner' ++ rest) = .ok tree ∧
      tree.outermost = earlier ++ node' ::
        later.map (Node.mapSpan (Span.shift (front ++ Text.between '[' ']' inner).length
          (front ++ Text.between '[' ']' inner').length)) := by
  obtain ⟨head, conditions, before, behind, rfl, at_step⟩ := derivation.hasStepsAt _ _ _ outermost_eq
  rw [Front.ownPredicates_step] at own_eq
  obtain ⟨preceding, predicate, others, rfl, at_predicate⟩ :=
    conditions.exists_predicateAt _ _ _ own_eq
  -- In front of the bracket is a step, with the predicates in front of this one only.
  have tokens_eq : derivation.tokens = (before ++ (head.step preceding).tokens) ++
      (predicate.tokens ++ (others ++ behind)) := by
    rw [at_step.tokens_eq, Front.tokens_step, Front.tokens_step, at_predicate.tokens_eq]
    simp
  have ends := head.endsStep_of_mem_getLast? preceding before
  rw [tokens_eq] at tokenized
  obtain ⟨front, inner, rest, rfl, span_eq, front_tokenized, rest_tokenized⟩ :=
    tokenized.exists_between fun token mem => Lexeme.no_type_of_endsStep (ends token mem)
  obtain ⟨predicate', span_eq', tokenized'⟩ :=
    front_tokenized.exists_replaced rest_tokenized ends accepted
  -- The predicates behind it move in the step, and the steps behind that in the expression.
  let moved (position : Nat) : Nat := position + (front ++ Text.between '[' ']' inner').length -
    (front ++ Text.between '[' ']' inner).length
  obtain ⟨conditions', conditions_tokens, conditions_eq⟩ :=
    at_predicate.exists_replaced moved moved predicate'
  obtain ⟨derivation', derivation_tokens, outermost_eq'⟩ :=
    at_step.exists_refilled moved moved conditions'
  refine ⟨front, inner, rest, _, (head.step conditions').value, rfl, ⟨span_eq, ?_, ?_, ?_, ?_⟩,
    Node.parse_eq_ok_iff_exists.2 ⟨derivation', ?_, rfl⟩, outermost_eq'⟩
  · rw [Front.ownPredicates_step, own_eq]
  · exact ⟨predicate'.value, span_eq', (Front.ownPredicates_step _ _).trans conditions_eq⟩
  · exact fun behind behind' => (Front.ownText_append front_tokenized conditions' behind').trans
      (Front.ownText_append front_tokenized conditions behind).symm
  · exact head.traits_step _ _
  · rw [derivation_tokens, Front.tokens_step, conditions_tokens]
    rw [Front.tokens_step] at tokenized'
    replace tokenized' : Tokenized false 0 _ (_ ++ (_ ++ (others ++ behind).map (.move moved moved))) :=
      tokenized'
    simpa using tokenized'

/-! ## Steps and paths with another predicate -/

namespace Node.Replaced

variable {front inner inner' rest : Text} {node node' predicate : Node} {firsts lasts : List Node}
  {tokens : List Token}

/-- The other predicates have the same texts as before. -/
theorem exists_texts (h : Replaced front inner inner' rest node node' firsts lasts predicate)
    (nested : node.Nested tokens) : ∃ earlier later : List Text, earlier.length = firsts.length ∧
      node.ownPredicates.map (·.span.cutInside (front ++ Text.between '[' ']' inner ++ rest)) =
        earlier ++ inner :: later ∧
      node'.ownPredicates.map (·.span.cutInside (front ++ Text.between '[' ']' inner' ++ rest)) =
        earlier ++ inner' :: later := by
  have row := nested.ownPredicates_row
  rw [h.ownPredicates_eq] at row
  obtain ⟨-, ordered, cross⟩ := List.pairwise_append.1 row.ordered
  obtain ⟨predicate', span_eq', own_eq'⟩ := h.exists_ownPredicates
  -- The predicates in front are cut out of the text in front of the bracket, which has not changed.
  have in_front : ∀ behind : Text, firsts.map (·.span.cutInside (front ++ behind)) =
      firsts.map (·.span.cutInside front) := by
    refine fun behind => List.map_congr_left fun first mem => ?_
    have le := cross first mem predicate (by simp)
    rw [h.span_eq] at le
    dsimp only at le
    exact Text.slice_append_of_le _ (by omega)
  have behind : (lasts.map (mapSpan (Span.shift (front ++ Text.between '[' ']' inner).length
      (front ++ Text.between '[' ']' inner').length))).map
        (·.span.cutInside (front ++ Text.between '[' ']' inner' ++ rest)) =
          lasts.map (·.span.cutInside (front ++ Text.between '[' ']' inner ++ rest)) := by
    rw [List.map_map]
    refine List.map_congr_left fun last mem => ?_
    have le := (List.pairwise_cons.1 ordered).1 last mem
    have lt := (row.nested last (by simp [mem])).root.start_lt_stop
    rw [h.span_eq, ← List.length_append] at le
    rw [Function.comp_apply, span_mapSpan, Span.cutInside_shift _ _ rest le lt]
  refine ⟨firsts.map (·.span.cutInside front),
    lasts.map (·.span.cutInside (front ++ Text.between '[' ']' inner ++ rest)), by simp, ?_, ?_⟩
  · rw [h.ownPredicates_eq, List.map_append, List.map_cons,
      Span.cutInside_between front inner rest h.span_eq, List.append_assoc, in_front]
  · rw [own_eq', List.map_append, List.map_cons, behind,
      Span.cutInside_between front inner' rest span_eq', List.append_assoc, in_front]

/-- **Only the one predicate of the step changes.** -/
theorem candidate? (h : Replaced front inner inner' rest node node' firsts lasts predicate)
    (nested : node.Nested tokens) {candidate : Candidate}
    (made : Node.candidate? (front ++ Text.between '[' ']' inner ++ rest) node = .ok candidate) :
    candidate.step.predicates[firsts.length]? = some inner ∧
      Node.candidate? (front ++ Text.between '[' ']' inner' ++ rest) node' =
        .ok ⟨{ candidate.step with
          predicates := candidate.step.predicates.set firsts.length inner' }, node'.span⟩ := by
  obtain ⟨earlier, later, length_eq, texts_eq, texts_eq'⟩ := h.exists_texts nested
  obtain ⟨text_eq, predicates_eq, -⟩ := Node.candidate?_eq_ok_iff.1 made
  rw [texts_eq] at predicates_eq
  have own := h.ownText_eq (Text.between '[' ']' inner ++ rest) (Text.between '[' ']' inner' ++ rest)
  rw [← List.append_assoc, ← List.append_assoc] at own
  refine ⟨by simp [← predicates_eq, ← length_eq], Node.candidate?_eq_ok_iff.2 ⟨?_, ?_, rfl⟩⟩
  · rw [own, text_eq]
  · rw [texts_eq', ← predicates_eq]
    simp [← length_eq]

end Node.Replaced

/-- An element of a list parts the list. -/
theorem exists_append_of_getElem? {α : Type} {list : List α} {index : Nat} {a : α}
    (h : list[index]? = some a) :
    ∃ earlier later, list = earlier ++ a :: later ∧ earlier.length = index := by
  obtain ⟨lt, rfl⟩ := List.getElem?_eq_some_iff.1 h
  refine ⟨list.take index, list.drop (index + 1), ?_, List.length_take_of_le (Nat.le_of_lt lt)⟩
  rw [← List.drop_eq_getElem_cons lt, List.take_append_drop]

/-- **Only the one step changes** where one node is replaced and those behind it are moved. -/
theorem Node.exists_mapM_of_replaced {front inner inner' rest : Text} {tokens : List Token}
    {earlier later firsts lasts : List Node} {node node' predicate : Node}
    (h : Node.Replaced front inner inner' rest node node' firsts lasts predicate)
    (row : Row (earlier ++ node :: later) tokens) {candidates : List Candidate}
    (made : (earlier ++ node :: later).mapM
      (candidate? (front ++ Text.between '[' ']' inner ++ rest)) = .ok candidates) :
    ∃ step candidates', (candidates.map (·.step))[earlier.length]? = some step ∧
      step.predicates[firsts.length]? = some inner ∧
      (earlier ++ node' :: later.map (mapSpan (Span.shift
        (front ++ Text.between '[' ']' inner).length
        (front ++ Text.between '[' ']' inner').length))).mapM
          (candidate? (front ++ Text.between '[' ']' inner' ++ rest)) = .ok candidates' ∧
      candidates'.map (·.step) = (candidates.map (·.step)).set earlier.length
        { step with predicates := step.predicates.set firsts.length inner' } := by
  obtain ⟨before, candidate, behind, before_made, candidate_made, behind_made, rfl⟩ :=
    exists_split_of_mapM made
  obtain ⟨-, ordered, cross⟩ := List.pairwise_append.1 row.ordered
  obtain ⟨inner_eq, candidate_made'⟩ := h.candidate? (row.nested node (by simp)) candidate_made
  -- The predicate is inside of the node, so it is behind the nodes in front and in front of the others.
  have within := (row.nested node (by simp)).root.inside predicate
    (node.ownPredicates_sublist.subset (by simp [h.ownPredicates_eq]))
  rw [h.span_eq, ← List.length_append] at within
  simp only [Span.within_iff] at within
  have before_made' : earlier.mapM (Node.candidate? (front ++ Text.between '[' ']' inner' ++ rest)) =
      .ok before := by
    have nested : ∀ other ∈ earlier, other.Nested tokens := fun other mem =>
      row.nested other (by simp [mem])
    have le : ∀ other ∈ earlier, other.span.stop ≤ front.length := fun other mem => by
      have := cross other mem node (by simp)
      omega
    rw [List.append_assoc, mapM_candidate?_append nested le] at before_made ⊢
    exact before_made
  obtain ⟨moved, moved_made, moved_eq⟩ := mapM_candidate?_shift
    (front ++ Text.between '[' ']' inner') (fun other mem => row.nested other (by simp [mem]))
    (fun other mem => by
      have := (List.pairwise_cons.1 ordered).1 other mem
      omega) behind_made
  have length_eq := length_of_mapM_candidate? before_made
  refine ⟨candidate.step, before ++ ⟨{ candidate.step with
    predicates := candidate.step.predicates.set firsts.length inner' }, node'.span⟩ :: moved,
    by simp [← length_eq], inner_eq, ?_, by simp [← length_eq, moved_eq]⟩
  rw [List.mapM_append, before_made', List.mapM_cons, candidate_made', moved_made]
  rfl

/-- A predicate of a step is cut out of a predicate of the node that the step is made of. -/
theorem Derivation.exists_predicate_of_step {text : Text} (derivation : Derivation .expression)
    {candidates : List Candidate}
    (made : (Node.outermost derivation.value).mapM (Node.candidate? text) = .ok candidates)
    {i j : Nat} {candidate : Candidate} (candidate_eq : candidates[i]? = some candidate)
    {inner : Text} (inner_eq : candidate.step.predicates[j]? = some inner) :
    ∃ node predicate, (Node.outermost derivation.value)[i]? = some node ∧
      node.ownPredicates[j]? = some predicate ∧ predicate.innerSource? text = some inner := by
  obtain ⟨node, node_eq, candidate_made⟩ := Node.exists_of_getElem?_mapM made candidate_eq
  rw [← (Node.candidate?_eq_ok_iff.1 candidate_made).2.1, List.getElem?_map] at inner_eq
  obtain ⟨predicate, predicate_eq, cut_eq⟩ := Option.map_eq_some_iff.1 inner_eq
  refine ⟨node, predicate, node_eq, predicate_eq, ?_⟩
  -- What stands in the place of predicates is a predicate, so that its text is the cut one.
  have node_mem : node ∈ Node.nodes derivation.value := (Node.of_mem_walked _ node
    (Node.outermost_subset_walked _ (List.mem_of_getElem? node_eq))).1
  have bracketed := derivation.guarded node node_mem predicate
    (List.mem_of_getElem? predicate_eq)
  cases predicate with
  | predicate span condition => exact congrArg some cut_eq
  | _ => contradiction

/-- **Predicates are opaque.** If an expression takes the place of what stands between the brackets of
one predicate of one step of an accepted text, then the new text is accepted, this predicate of this
step is the expression, all else of the steps is as before, and so is what is recorded of the
attribute. -/
theorem PathInfo.parse_replaceInside {text inner inner' : Text} {info : PathInfo} {step : Step}
    {i j : Nat} (h : PathInfo.parse text = .ok info) (step_eq : info.locationSteps[i]? = some step)
    (inner_eq : step.predicates[j]? = some inner) (accepted : inner'.IsExpression) :
    ∃ tree node predicate, Node.parse text = .ok tree ∧ tree.outermost[i]? = some node ∧
      node.ownPredicates[j]? = some predicate ∧ predicate.innerSource? text = some inner ∧
      ∃ info', PathInfo.parse (predicate.span.replaceInside inner' text) = .ok info' ∧
        info'.locationSteps =
          info.locationSteps.set i { step with predicates := step.predicates.set j inner' } ∧
        info'.attributeName = info.attributeName ∧ info'.attributeIndex = info.attributeIndex := by
  obtain ⟨tree, parsed, -⟩ := bind_eq_ok_iff.1 h
  obtain ⟨derivation, tokenized, rfl⟩ := Node.parse_eq_ok_iff_exists.1 parsed
  obtain ⟨found, -, made, steps_eq⟩ := exists_found derivation tokenized h
  have row := Node.outermost_row (derivation.nests tokenized.inOrder).2
  rw [steps_eq, List.getElem?_map] at step_eq
  obtain ⟨candidate, candidate_eq, rfl⟩ := Option.map_eq_some_iff.1 step_eq
  obtain ⟨node, predicate, node_eq, predicate_eq, source_eq⟩ :=
    derivation.exists_predicate_of_step made candidate_eq inner_eq
  refine ⟨_, node, predicate, parsed, node_eq, predicate_eq, source_eq, ?_⟩
  obtain ⟨earlier, later, outermost_eq, rfl⟩ := exists_append_of_getElem? node_eq
  obtain ⟨firsts, lasts, own_eq, rfl⟩ := exists_append_of_getElem? predicate_eq
  obtain ⟨front, inner₀, rest, tree', node', rfl, replaced, parsed', outermost_eq'⟩ :=
    derivation.exists_replaced tokenized outermost_eq own_eq accepted
  rw [Span.replaceInside_between front inner₀ inner' rest replaced.span_eq]
  -- What is recorded depends on the traits only.
  have same : tree'.outermost.map Node.traits =
      (Node.outermost derivation.value).map Node.traits := by
    rw [outermost_eq', outermost_eq]
    simp [replaced.traits_eq]
  obtain ⟨info', taken, name, index⟩ := exists_parse_of_traits_eq parsed parsed' h same
  refine ⟨info', taken, ?_, name, index⟩
  obtain ⟨derivation', tokenized', rfl⟩ := Node.parse_eq_ok_iff_exists.1 parsed'
  obtain ⟨found', -, made', steps_eq'⟩ := exists_found derivation' tokenized' taken
  rw [outermost_eq] at made row
  rw [outermost_eq'] at made'
  obtain ⟨step', candidates', step_eq', -, moved_made, moved_eq⟩ :=
    Node.exists_mapM_of_replaced replaced row made
  rw [List.getElem?_map, candidate_eq] at step_eq'
  obtain rfl : candidate.step = step' := Option.some.inj step_eq'
  rw [steps_eq', Except.ok.inj (made'.symm.trans moved_made), moved_eq, steps_eq]

/-- An attribute step, a bracket and a group in the new condition leave the attribute where it is. -/
theorem PathInfo.parse_replaceInside_of_attribute : ∃ info step info' node,
    PathInfo.parse "a/@b[1][ c ] | d[2]".toList = .ok info ∧
      info.locationSteps[1]? = some step ∧ step.predicates[1]? = some " c ".toList ∧
      Text.IsExpression "@e[']'] | (f)[g]".toList ∧
      Node.innerSource? node "a/@b[1][ c ] | d[2]".toList = some " c ".toList ∧
      node.span.replaceInside "@e[']'] | (f)[g]".toList "a/@b[1][ c ] | d[2]".toList =
        "a/@b[1][@e[']'] | (f)[g]] | d[2]".toList ∧
      PathInfo.parse "a/@b[1][@e[']'] | (f)[g]] | d[2]".toList = .ok info' ∧
      info'.locationSteps = info.locationSteps.set 1
        { step with predicates := step.predicates.set 1 "@e[']'] | (f)[g]".toList } ∧
      info'.attributeName = some "b".toList ∧ info'.attributeIndex = some 1 := by
  have fields : (parse "a/@b[1][ c ] | d[2]".toList).map (fun info =>
      (info.locationSteps[1]?.bind (·.predicates[1]?), info.attributeName, info.attributeIndex)) =
        .ok (some " c ".toList, some "b".toList, some 1) := by
    decide +kernel
  have place : (Node.parse "a/@b[1][ c ] | d[2]".toList).map (fun tree =>
      tree.outermost[1]?.bind (·.ownPredicates[1]?.map (·.span))) = .ok (some ⟨7, 12⟩) := by
    decide +kernel
  have readable : (Node.parse "@e[']'] | (f)[g]".toList).map (fun _ => ()) = .ok () := by
    decide +kernel
  obtain ⟨info, taken, fields⟩ := map_eq_ok_iff.1 fields
  obtain ⟨inner_eq, name_eq, index_eq⟩ : _ ∧ info.attributeName = _ ∧ info.attributeIndex = _ := by
    simpa using fields
  obtain ⟨step, step_eq, inner_eq⟩ := Option.bind_eq_some_iff.1 inner_eq
  obtain ⟨condition, accepted, -⟩ := map_eq_ok_iff.1 readable
  obtain ⟨tree, node, predicate, parsed, node_eq, predicate_eq, source_eq, info', taken', steps_eq,
    name_eq', index_eq'⟩ := parse_replaceInside taken step_eq inner_eq ⟨condition, accepted⟩
  have span_eq : predicate.span = ⟨7, 12⟩ := by
    rw [parsed] at place
    simpa [Except.map, node_eq, predicate_eq] using place
  have replaced : predicate.span.replaceInside "@e[']'] | (f)[g]".toList
      "a/@b[1][ c ] | d[2]".toList = "a/@b[1][@e[']'] | (f)[g]] | d[2]".toList := by
    rw [span_eq]
    decide +kernel
  exact ⟨info, step, info', predicate, taken, step_eq, inner_eq, ⟨condition, accepted⟩, source_eq,
    replaced, replaced ▸ taken', steps_eq, name_eq'.trans name_eq, index_eq'.trans index_eq⟩

end LocationPath
