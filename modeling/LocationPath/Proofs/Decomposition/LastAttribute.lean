import LocationPath.Proofs.Decomposition.Attributes
import LocationPath.Proofs.Decomposition.Collected

/-! # The attribute of a path

What is recorded of the attribute of a path is that of the last attribute step outside of predicates.
If it is one of the steps of the path then its index is recorded too. Where no index was found one
is guessed from the text of the last step; but the text of a step starts with the sign of the
attribute axis only if the step is an attribute step, and then its index was found.

Main definition: `PathInfo.Records`. Main results: `PathInfo.records` and
`PathInfo.parse_attribute`. -/

namespace LocationPath

/-! ## The sign at the start of a step -/

namespace Text

/-- A trimmed text starts with the first character that is no white space. -/
theorem head?_trim (text : Text) : text.trim.head? = (text.dropWhile isWhiteSpace).head? := by
  rw [trim, List.head?_reverse]
  cases rest_eq : text.dropWhile isWhiteSpace with
  | nil => rfl
  | cons c rest =>
    have first := List.head_dropWhile_not isWhiteSpace (rest_eq ▸ List.cons_ne_nil c rest)
    simp only [rest_eq, List.head_cons] at first
    rw [List.reverse_cons, List.dropWhile_append, List.dropWhile_cons_of_neg (by simp [first])]
    split <;> simp

end Text

/-- Whether a token is a name. -/
def Token.isName (token : Token) : Bool :=
  match token.lexeme with
  | .name _ => true
  | _ => false

/-- Only the sign of the attribute axis is written with it at the start. -/
theorem Lexeme.Spelled.eq_atSign {afterOperand : Bool} {lexeme : Lexeme} {more : Text}
    (h : lexeme.Spelled afterOperand '@' more) : lexeme = .atSign := by
  cases h with
  | literal quotation => simp at quotation
  | pointed first | integer first => exact absurd first (by decide +kernel)
  | name first | nodeType first | word first => exact absurd first (by decide +kernel)
  | symbol mem =>
    obtain ⟨lexeme_eq, -⟩ : lexeme = .atSign ∧ more = [] := by simpa [symbols] using mem
    exact lexeme_eq

/-- If the first character that is no white space is the sign of the attribute axis, then so is the
first token that is no name. -/
theorem Tokenized.head?_dropWhile_isName {afterOperand : Bool} {start : Nat} {text : Text}
    {tokens : List Token} (h : Tokenized afterOperand start text tokens)
    (head : (text.dropWhile isWhiteSpace).head? = some '@') :
    (tokens.dropWhile Token.isName).head?.map (·.lexeme) = some .atSign := by
  have white_of_layout : ∀ {gap : Text}, gap.all isLayout = true →
      ∀ c ∈ gap, isWhiteSpace c = true := fun layout c mem =>
    isWhiteSpace_of_isLayout (List.all_eq_true.1 layout c mem)
  induction h with
  | layout layout =>
    rw [List.dropWhile_eq_nil_iff.2 (white_of_layout layout)] at head
    contradiction
  | @token _ _ gap lexeme c more behind span tokens layout spelled _ _ _ _ ih =>
    rw [List.dropWhile_append_of_pos (white_of_layout layout)] at head
    cases white : isWhiteSpace c with
    | true =>
      -- What starts with white space is a name, and the sign is not in a name.
      obtain ⟨-, rfl, chars⟩ := spelled.of_isWhiteSpace white
      rw [List.dropWhile_cons_of_pos white, List.dropWhile_append] at head
      rw [List.dropWhile_cons_of_pos rfl]
      split at head
      · exact ih head
      · rename_i rest_ne
        obtain ⟨d, rest, rest_eq⟩ := List.exists_cons_of_ne_nil (List.isEmpty_eq_false_iff.1
          (Bool.not_eq_true _ ▸ rest_ne))
        rw [rest_eq] at head
        obtain rfl : d = '@' := Option.some.inj head
        have mem : '@' ∈ more :=
          (List.dropWhile_suffix isWhiteSpace).subset (rest_eq ▸ List.mem_cons_self)
        exact absurd (List.all_eq_true.1 chars _ mem) (by decide +kernel)
    | false =>
      rw [List.dropWhile_cons_of_neg (by simp [white])] at head
      obtain rfl : c = '@' := Option.some.inj head
      obtain rfl := spelled.eq_atSign
      rw [List.dropWhile_cons_of_neg (by simp [Token.isName])]
      rfl

namespace Front

/-- If the first token of a front that is no name is the sign of the attribute axis, then the front is
on this axis. -/
theorem exists_signed {front : Front}
    (h : (front.tokens.dropWhile Token.isName).head?.map (·.lexeme) = some .atSign) :
    ∃ sign test, front = .signed sign test := by
  cases front with
  | signed sign test => exact ⟨sign, test, rfl⟩
  | unwritten test =>
    cases test with
    | nameTest name =>
      cases name <;> simp [tokens, Derivation.tokens, Token.isName, List.dropWhile_cons] at h
    | _ => simp [tokens, Derivation.tokens, Token.isName, List.dropWhile_cons] at h
  | namedAxis | self | parent => simp [tokens, Token.isName, List.dropWhile_cons] at h
  | primary base =>
    cases base with
    | emptyCall name | call name =>
      cases name <;> simp [tokens, Derivation.tokens, Token.isName, List.dropWhile_cons] at h
    | _ => simp [tokens, Derivation.tokens, Token.isName] at h

/-- A step is an attribute step if its front is on the attribute axis. -/
theorem isAttributeStep_step (front : Front) (conditions : Derivation .predicates) :
    Node.isAttributeStep (front.step conditions).value = true ↔
      ∃ sign test, front = .signed sign test := by
  constructor
  · intro signed
    cases front with
    | signed sign test => exact ⟨sign, test, rfl⟩
    | primary base =>
      simp only [step, Derivation.value] at signed
      split at signed
      · cases base <;> contradiction
      · contradiction
    | _ => contradiction
  · rintro ⟨sign, test, rfl⟩
    rfl

end Front

namespace Derivation

/-- A step that starts where an attribute step does is one. -/
theorem isAttributeStep_of_start_eq {text : Text} (derivation : Derivation .expression)
    (tokenized : Tokenized false 0 text derivation.tokens) {node signed : Node}
    (mem : node ∈ Node.walked derivation.value) (signed_mem : signed ∈ Node.walked derivation.value)
    (h : signed.isAttributeStep = true) (eq : node.span.start = signed.span.start) :
    node.isAttributeStep = true := by
  have order := tokenized.inOrder
  obtain ⟨front, conditions, rfl, inside⟩ := derivation.exists_step_of_mem_walked mem
  obtain ⟨front', conditions', rfl, inside'⟩ := derivation.exists_step_of_mem_walked signed_mem
  obtain ⟨sign, test, rfl⟩ := (Front.isAttributeStep_step _ _).1 h
  obtain ⟨token, rest, tokens_eq, -⟩ := front.exists_first
  obtain ⟨first, head, -, -, start, -⟩ := ((front.step conditions).nests (order.of_infix inside)).1
  obtain ⟨first', head', -, -, start', -⟩ :=
    (((Front.signed sign test).step conditions').nests (order.of_infix inside')).1
  -- Both start with the same token, which is the sign.
  have same : first = first' := order.eq_of_start_eq (inside.subset (List.mem_of_head? head))
    (inside'.subset (List.mem_of_head? head')) (by omega)
  obtain rfl : ⟨.atSign, sign⟩ = first' := Option.some.inj head'
  rw [Front.tokens_step, tokens_eq] at head
  obtain rfl : token = first := Option.some.inj head
  refine (Front.isAttributeStep_step _ _).2 (Front.exists_signed ?_)
  rw [tokens_eq, same]
  rfl

/-- A step whose text starts with the sign of the attribute axis is an attribute step. -/
theorem isAttributeStep_of_head? {text : Text} (derivation : Derivation .expression)
    (tokenized : Tokenized false 0 text derivation.tokens) {node : Node}
    (mem : node ∈ Node.outermost derivation.value) {candidate : Candidate}
    (made : Node.candidate? text node = .ok candidate)
    (head : candidate.step.text.head? = some '@') : node.isAttributeStep = true := by
  obtain ⟨front, conditions, rfl, before, behind, tokens_eq⟩ :=
    derivation.exists_step_of_mem_outermost mem
  rw [← tokens_eq, Front.tokens_step, List.append_assoc, List.append_assoc] at tokenized
  refine (Front.isAttributeStep_step _ _).2 (Front.exists_signed ?_)
  have own := (Node.candidate?_eq_ok_iff.1 made).1
  rw [Front.ownText_step] at own
  rw [← own] at head
  cases abbreviation : front.abbreviation? with
  | some dots =>
    rw [abbreviation, Option.getD_some, Front.head?_trim_of_abbreviation? abbreviation] at head
    contradiction
  | none =>
    rw [abbreviation, Option.getD_none, Text.head?_trim] at head
    -- What is trimmed away in front of the sign is layout and names of Ogham spaces.
    exact (Front.tokenized_cut tokenized).1.head?_dropWhile_isName head

/-- No outermost step stands at the place of an attribute step inside of another one. -/
theorem findIdx?_eq_none {text : Text} (derivation : Derivation .expression)
    (tokenized : Tokenized false 0 text derivation.tokens) {earlier later : List Node}
    {node inner : Node} (nodes_eq : Node.outermost derivation.value = earlier ++ node :: later)
    (unsigned : node.isAttributeStep = false) (mem : inner ∈ Node.walked derivation.value)
    (signed : inner.isAttributeStep = true) (inside : inner ∈ node.nodes) :
    (Node.outermost derivation.value).findIdx? (·.span == inner.span) = none := by
  have nested := (derivation.nests tokenized.inOrder).2
  have row := Node.outermost_row nested
  have node_mem : node ∈ Node.outermost derivation.value := by simp [nodes_eq]
  refine List.findIdx?_eq_none_iff.2 fun other other_mem => beq_eq_false_iff_ne.2 fun eq => ?_
  have other_signed := derivation.isAttributeStep_of_start_eq tokenized
    (Node.outermost_subset_walked _ other_mem) mem signed (by rw [eq])
  -- What stands at this place is around it, and only the node is.
  have same : other = node := row.eq_of_within other_mem node_mem
    (nested inner (Node.of_mem_walked _ _ mem).1).start_lt_stop (eq ▸ Span.within_self _)
    ((row.nested node node_mem).within inside)
  rw [same, unsigned] at other_signed
  contradiction

end Derivation

/-- The last step of some nodes is that of the last node. -/
theorem Node.exists_of_getLast?_mapM {source : Text} {nodes : List Node}
    {candidates : List Candidate} (h : nodes.mapM (candidate? source) = .ok candidates)
    {last : Candidate} (mem : candidates.getLast? = some last) :
    ∃ node, nodes.getLast? = some node ∧ candidate? source node = .ok last := by
  rw [List.getLast?_eq_getElem?, length_of_mapM_candidate? h] at mem
  rw [List.getLast?_eq_getElem?]
  exact exists_of_getElem?_mapM h mem

/-! ## What is noted -/

namespace Collection

/-- A turn of the loop notes an attribute step, and leaves what was noted at any other node. -/
theorem lastAttribute_note {source : Text} {found found' : Collection} {node : Node}
    (h : found.note source node = .ok found') :
    found'.lastAttribute = node.attributeStep?.or found.lastAttribute := by
  obtain ⟨middle, added, h⟩ := bind_eq_ok_iff.1 h
  have kept : middle.lastAttribute = found.lastAttribute := by
    obtain ⟨step, -, pushed⟩ := bind_eq_ok_iff.1 added
    rw [← Except.ok.inj pushed, push]
  split at h
  · rw [← Except.ok.inj h]
    rfl
  · rename_i no_sign
    rw [← Except.ok.inj h, kept]
    cases node with
    | step span axis test predicates =>
      cases axis with
      | unwritten | named => rfl
      -- The other axes are what the first branch has matched.
      | _ => exact absurd rfl (no_sign span test predicates)
    | _ => rfl

/-- The loop notes the last attribute step that it comes to. -/
theorem lastAttribute_foldlM_note {source : Text} {nodes : List Node} {found found' : Collection}
    (h : nodes.foldlM (note source) found = .ok found') :
    found'.lastAttribute =
      ((nodes.filter Node.isAttributeStep).getLast?.bind Node.attributeStep?).or
        found.lastAttribute := by
  induction nodes using List.reverseRecOn generalizing found' with
  | nil =>
    obtain rfl := Except.ok.inj h
    rfl
  | append_singleton nodes node ih =>
    obtain ⟨middle, front, last⟩ := foldlM_note_append.1 h
    rw [foldlM_note_singleton] at last
    rw [lastAttribute_note last, ih front, List.filter_append]
    cases noted_eq : node.attributeStep? with
    | none => simp [Node.isAttributeStep, noted_eq]
    | some latest => simp [Node.isAttributeStep, noted_eq]

/-- The index of a place among the candidates is the index of the node that has it. -/
theorem findIdx?_candidates {source : Text} {found : Collection} {nodes : List Node}
    (made : nodes.mapM (Node.candidate? source) = .ok found.candidates) (place : Span) :
    found.candidates.findIdx? (·.span == place) = nodes.findIdx? (·.span == place) := by
  have mapped := congrArg (List.findIdx? (· == place)) (Node.span_of_mapM_candidate? made)
  rwa [List.findIdx?_map, List.findIdx?_map] at mapped

end Collection

/-- The last element of lists behind one another is in the last list that is not empty. -/
theorem exists_of_getLast?_flatMap {α β : Type} {f : α → List β} {list : List α} {last : β}
    (h : (list.flatMap f).getLast? = some last) : ∃ earlier a later,
      list = earlier ++ a :: later ∧ (∀ b ∈ later, f b = []) ∧ (f a).getLast? = some last := by
  induction list using List.reverseRecOn with
  | nil => contradiction
  | append_singleton list a ih =>
    rw [List.flatMap_append, List.flatMap_singleton] at h
    -- If the last list is empty, the element is in the lists before it.
    cases found : (f a).getLast? with
    | some other =>
      rw [List.getLast?_append, found] at h
      exact ⟨list, a, [], rfl, by simp, found.trans h⟩
    | none =>
      have empty := List.getLast?_eq_none_iff.1 found
      rw [empty, List.append_nil] at h
      obtain ⟨earlier, b, later, rfl, none_later, found⟩ := ih h
      refine ⟨earlier, b, later ++ [a], by simp, fun c mem => ?_, found⟩
      obtain mem | mem := List.mem_append.1 mem
      · exact none_later c mem
      · rw [List.mem_singleton.1 mem, empty]

namespace Node

/-- Only steps on the attribute axis are noted. -/
theorem eq_step_of_attributeStep? {node : Node} {latest : AttributeStep}
    (h : node.attributeStep? = some latest) : ∃ span test predicates,
      node = .step span .attribute test predicates ∧ latest = ⟨test.render, span⟩ := by
  cases node with
  | step span axis test predicates =>
    cases axis with
    | unwritten | named => contradiction
    | _ => exact ⟨span, test, predicates, rfl, (Option.some.inj h).symm⟩
  | _ => contradiction

/-- An attribute step is noted at its own place. -/
theorem span_of_attributeStep? {node : Node} {latest : AttributeStep}
    (h : node.attributeStep? = some latest) : latest.span = node.span := by
  obtain ⟨span, test, predicates, rfl, rfl⟩ := eq_step_of_attributeStep? h
  rfl

/-- The walk through an attribute step comes to the step alone. -/
theorem attributeSteps_of_isAttributeStep {node : Node} (h : node.isAttributeStep = true) :
    node.attributeSteps = [node] := by
  cases node with
  | step => simp [attributeSteps, walked, h]
  | _ => contradiction

/-- A node of a row is found by its place. -/
theorem Row.findIdx?_span {earlier later : List Node} {node : Node} {tokens : List Token}
    (h : Row (earlier ++ node :: later) tokens) :
    (earlier ++ node :: later).findIdx? (·.span == node.span) = some earlier.length := by
  have front : earlier.findIdx? (·.span == node.span) = none := by
    refine List.findIdx?_eq_none_iff.2 fun other mem => beq_eq_false_iff_ne.2 fun eq => ?_
    have apart := (List.pairwise_append.1 h.ordered).2.2 other mem node (by simp)
    have lt := (h.nested node (by simp)).root.start_lt_stop
    rw [eq] at apart
    omega
  rw [List.findIdx?_append, front, List.findIdx?_cons]
  simp

end Node

/-- If there is no attribute step behind a node, and the node is none itself, then the text of the last
step does not start with the sign of the attribute axis. -/
theorem Derivation.head?_ne_of_last {text : Text} (derivation : Derivation .expression)
    (tokenized : Tokenized false 0 text derivation.tokens) {candidates : List Candidate}
    (made : (Node.outermost derivation.value).mapM (Node.candidate? text) = .ok candidates)
    {earlier later : List Node} {node : Node}
    (nodes_eq : Node.outermost derivation.value = earlier ++ node :: later)
    (none_later : ∀ other ∈ later, other.attributeSteps = [])
    (unsigned : node.isAttributeStep = false) :
    ∀ last ∈ candidates.getLast?, last.step.text.head? ≠ some '@' := by
  intro last mem head
  -- The last step of the path would be an attribute step that is the node or behind it.
  obtain ⟨final, final_mem, final_made⟩ := Node.exists_of_getLast?_mapM made mem
  have signed := derivation.isAttributeStep_of_head? tokenized (List.mem_of_getLast? final_mem)
    final_made head
  rw [nodes_eq, List.getLast?_append_cons] at final_mem
  obtain rfl | final_later := List.mem_cons.1 (List.mem_of_getLast? final_mem)
  · rw [unsigned] at signed
    contradiction
  · have none_there := none_later final final_later
    rw [Node.attributeSteps_of_isAttributeStep signed] at none_there
    contradiction

/-- An attribute step inside of an outermost step that is none itself is inside of a filter
expression. -/
theorem Node.isInside_of_mem_attributeSteps {tree node last : Node} (mem : node ∈ tree.outermost)
    (unsigned : node.isAttributeStep = false) (last_mem : last ∈ node.attributeSteps) :
    tree.IsInside isFilterExpression last := by
  obtain ⟨node_below, alone⟩ := of_mem_walked _ node (outermost_subset_walked _ mem)
  obtain ⟨walked, signed⟩ := List.mem_filter.1 last_mem
  obtain itself | ⟨outer, outer_mem, filter, inside⟩ := outermost_or_inside walked
  · rw [alone] at itself
    rw [← List.mem_singleton.1 itself, signed] at unsigned
    contradiction
  · rw [alone] at outer_mem
    obtain rfl := List.mem_singleton.1 outer_mem
    exact ⟨outer, node_below, filter, inside⟩

namespace PathInfo

/-- No index is guessed if the last step does not start with the sign of the attribute axis. -/
theorem attributeIndex_of_none {steps : List Step} (path : Text) (name : Option Text)
    (h : ∀ last ∈ steps.getLast?, last.text.head? ≠ some '@') :
    (of steps path name none).attributeIndex = none := by
  have unsigned : steps.getLast?.any (fun last => last.text.head? == some '@') = false := by
    cases last_eq : steps.getLast? with
    | none => rfl
    | some last => simpa using h last last_eq
  simp [of, unsigned]

/-- What the walk through a tree finds is what the path is made of. -/
theorem eq_toPathInfo {text : Text} {derivation : Derivation .expression} {info : PathInfo}
    {found : Collection} (tokenized : Tokenized false 0 text derivation.tokens)
    (h : parse text = .ok info)
    (collected : Node.collect text .empty derivation.value = .ok found) :
    info = found.toPathInfo text := by
  have parsed := Node.parse_eq_ok_iff_exists.2 ⟨derivation, tokenized, rfl⟩
  have made : ofNode derivation.value text = .ok (found.toPathInfo text) := by
    rw [ofNode, collected]
    rfl
  rw [parse, parsed] at h
  exact Except.ok.inj (h.symm.trans made)

/-- What is recorded of the attribute of a path with some outermost nodes. -/
inductive Records (info : PathInfo) (text : Text) (nodes : List Node) : Prop where
  /-- There is no attribute step. -/
  | nothing (none_found : ∀ node ∈ nodes, node.attributeSteps = [])
    (name : info.attributeName = none) (index : info.attributeIndex = none)
    (path : info.pathToLastElement = text)
  /-- The last attribute step is one of the nodes or inside of one. -/
  | last {earlier later : List Node} {node last : Node} {latest : AttributeStep}
    (nodes_eq : nodes = earlier ++ node :: later)
    (none_later : ∀ other ∈ later, other.attributeSteps = [])
    (last_eq : node.attributeSteps.getLast? = some last)
    (noted : last.attributeStep? = some latest) (name : info.attributeName = some latest.name)
    (index : info.attributeIndex = if node.isAttributeStep then some ↑earlier.length else none)
    (path : info.pathToLastElement = Text.dropTrailing '/' (text.take last.span.start))

/-- **The last attribute step is recorded**, and its index if it is a step of the path. -/
theorem records {text : Text} (derivation : Derivation .expression) {info : PathInfo}
    (tokenized : Tokenized false 0 text derivation.tokens) (h : parse text = .ok info) :
    info.Records text (Node.outermost derivation.value) := by
  obtain ⟨found, collected, made, -⟩ := exists_found derivation tokenized h
  have nested := (derivation.nests tokenized.inOrder).2
  have row := Node.outermost_row nested
  obtain rfl := eq_toPathInfo tokenized h collected
  have noted : found.lastAttribute = ((Node.attributeSteps derivation.value).getLast?.bind
      Node.attributeStep?).or Collection.empty.lastAttribute :=
    Collection.lastAttribute_foldlM_note (Node.collect_eq_foldlM text derivation.guarded _ ▸ collected)
  cases last_eq : (Node.attributeSteps derivation.value).getLast? with
  | none =>
    have none_noted : found.lastAttribute = none := by
      rw [noted, last_eq]
      rfl
    rw [List.getLast?_eq_none_iff, Node.attributeSteps_eq_flatMap, List.flatMap_eq_nil_iff] at last_eq
    refine .nothing last_eq ?_ ?_ ?_
    · rw [Collection.toPathInfo, none_noted]
      rfl
    · simp [Collection.toPathInfo, Collection.attributeIndex, none_noted, PathInfo.of]
    · rw [Collection.toPathInfo, Collection.pathToLastElement, none_noted]
      rfl
  | some last =>
    have mem := List.mem_filter.1 (List.mem_of_getLast? last_eq)
    obtain ⟨latest, latest_eq⟩ := Option.isSome_iff_exists.1 mem.2
    have latest_noted : found.lastAttribute = some latest := by
      rw [noted, last_eq, Option.bind_some, latest_eq]
      rfl
    have place := Node.span_of_attributeStep? latest_eq
    rw [Node.attributeSteps_eq_flatMap] at last_eq
    obtain ⟨earlier, node, later, nodes_eq, none_later, inside⟩ := exists_of_getLast?_flatMap last_eq
    refine .last nodes_eq none_later inside latest_eq ?_ ?_ ?_
    · rw [Collection.toPathInfo, latest_noted]
      rfl
    · have index_eq : found.attributeIndex =
          (Node.outermost derivation.value).findIdx? (·.span == last.span) := by
        rw [Collection.attributeIndex, latest_noted, Option.bind_some,
          Collection.findIdx?_candidates made, place]
      cases signed : node.isAttributeStep with
      | true =>
        -- The step is one of the path, and it is found at its own index.
        rw [Node.attributeSteps_of_isAttributeStep signed] at inside
        obtain rfl : node = last := Option.some.inj inside
        rw [nodes_eq] at row index_eq
        rw [row.findIdx?_span] at index_eq
        simp [Collection.toPathInfo, index_eq]
      | false =>
        -- No step of the path has its place, and no index is guessed from the text of the last one.
        have none_there := derivation.findIdx?_eq_none tokenized nodes_eq signed mem.1 mem.2
          (Node.attributeSteps_sublist node |>.subset (List.mem_of_getLast? inside))
        rw [Collection.toPathInfo, index_eq, none_there]
        refine attributeIndex_of_none _ _ fun step step_mem => ?_
        rw [List.getLast?_map] at step_mem
        obtain ⟨candidate, candidate_mem, rfl⟩ := Option.map_eq_some_iff.1 step_mem
        exact derivation.head?_ne_of_last tokenized made nodes_eq none_later signed candidate
          candidate_mem
    · show found.pathToLastElement text = _
      rw [Collection.pathToLastElement, latest_noted, ← place]

/-- **The attribute of a path is its last attribute step.** If no attribute step is outside of
predicates then nothing is recorded, and all steps lead to elements. Otherwise the last one in the
order of the source gives the name; and just this step is left out, unless it is inside of a filter
expression and so no step of the path. -/
theorem parse_attribute {text : Text} {info : PathInfo} (h : parse text = .ok info) :
    ∃ tree candidates, Node.parse text = .ok tree ∧
      tree.outermost.mapM (Node.candidate? text) = .ok candidates ∧
      info.locationSteps = candidates.map (·.step) ∧
      ((∀ node ∈ tree.nodes, node.isAttributeStep = true → tree.IsInside Node.isPredicate node) ∧
          info.attributeName = none ∧ info.attributeIndex = none ∧
          info.steps = info.locationSteps ∧ info.pathToLastElement = text ∨
        ∃ last span test predicates, last = .step span .attribute test predicates ∧
          tree.IsLastAttributeStep last ∧ info.attributeName = some test.render ∧
          (tree.IsInside Node.isFilterExpression last ∧ info.attributeIndex = none ∧
              info.steps = info.locationSteps ∨
            ¬ tree.IsInside Node.isFilterExpression last ∧ ∃ index : Nat,
              tree.outermost[index]? = some last ∧ info.attributeIndex = some ↑index ∧
                info.steps = info.locationSteps.eraseIdx index)) := by
  obtain ⟨tree, parsed, -⟩ := bind_eq_ok_iff.1 h
  obtain ⟨derivation, tokenized, rfl⟩ := Node.parse_eq_ok_iff_exists.1 parsed
  obtain ⟨found, -, made, steps_eq⟩ := exists_found derivation tokenized h
  refine ⟨_, found.candidates, parsed, made, steps_eq, ?_⟩
  have nested := (derivation.nests tokenized.inOrder).2
  have all_steps : info.attributeIndex = none → info.steps = info.locationSteps := fun index => by
    rw [steps, index]
  cases records derivation tokenized h with
  | nothing none_found name index path =>
    refine .inl ⟨fun node mem signed => ?_, name, index, all_steps index, path⟩
    -- An attribute step outside of predicates would be one that the walk comes to.
    by_contra outside
    have found := (derivation.mem_attributeSteps_iff tokenized).2 ⟨mem, signed, outside⟩
    rw [Node.attributeSteps_eq_flatMap, List.flatMap_eq_nil_iff.2 none_found] at found
    contradiction
  | @last earlier later node last latest nodes_eq none_later last_eq noted name index path =>
    have final : (Node.attributeSteps derivation.value).getLast? = some last := by
      rw [Node.attributeSteps_eq_flatMap, nodes_eq, List.flatMap_append, List.flatMap_cons,
        List.flatMap_eq_nil_iff.2 none_later, List.append_nil, List.getLast?_append, last_eq]
      rfl
    obtain ⟨span, test, predicates, rfl, rfl⟩ := Node.eq_step_of_attributeStep? noted
    refine .inr ⟨_, span, test, predicates, rfl, derivation.isLastAttributeStep tokenized final,
      name, ?_⟩
    have node_mem : node ∈ Node.outermost derivation.value := by simp [nodes_eq]
    -- The step is outermost itself, or inside of an outermost filter expression.
    cases signed : node.isAttributeStep with
    | true =>
      rw [Node.attributeSteps_of_isAttributeStep signed] at last_eq
      obtain rfl := Option.some.inj last_eq
      rw [signed, if_pos rfl] at index
      have lengths := Node.length_of_mapM_candidate? made
      rw [nodes_eq, List.length_append, List.length_cons] at lengths
      refine .inr ⟨Node.not_isInside_of_mem_outermost nested node_mem rfl, earlier.length,
        by simp [nodes_eq], index, ?_⟩
      rw [steps, index]
      refine withoutIndex_natCast ?_
      rw [steps_eq, List.length_map]
      omega
    | false =>
      rw [signed, if_neg Bool.false_ne_true] at index
      exact .inl ⟨Node.isInside_of_mem_attributeSteps node_mem signed (List.mem_of_getLast? last_eq),
        index, all_steps index⟩

/-- Of equal attribute steps the last one is left out, though a step with an attribute in its predicate
follows. -/
theorem parse_attribute_of_repetition : ∃ info tree last,
    parse "(@a)[1] | @a[1] | b/@a[1] | c[@d]".toList = .ok info ∧
      info.locationSteps.map Step.toText = ["(@a)[1]".toList, "@a[1]".toList, "b".toList,
        "@a[1]".toList, "c[@d]".toList] ∧
      info.attributeName = some "a".toList ∧ info.attributeIndex = some 3 ∧
      Node.parse "(@a)[1] | @a[1] | b/@a[1] | c[@d]".toList = .ok tree ∧
      tree.IsLastAttributeStep last ∧ tree.outermost[3]? = some last ∧
      info.steps = info.locationSteps.eraseIdx 3 := by
  have found : (parse "(@a)[1] | @a[1] | b/@a[1] | c[@d]".toList).map (fun info =>
      (info.locationSteps.map Step.toText, info.attributeName, info.attributeIndex)) =
        .ok (["(@a)[1]".toList, "@a[1]".toList, "b".toList, "@a[1]".toList, "c[@d]".toList],
          some "a".toList, some 3) := by
    decide +kernel
  obtain ⟨info, parsed, fields⟩ := map_eq_ok_iff.1 found
  obtain ⟨steps_eq, name_eq, index_eq⟩ : info.locationSteps.map Step.toText = _ ∧
      info.attributeName = _ ∧ info.attributeIndex = _ := by simpa using fields
  obtain ⟨tree, candidates, tree_parsed, -, -, recorded⟩ := parse_attribute parsed
  obtain ⟨-, no_name, -⟩ | ⟨last, -, -, -, -, is_last, -, inside | ⟨-, index, there, recorded_eq, left⟩⟩ :=
    recorded
  · rw [name_eq] at no_name
    contradiction
  · rw [index_eq] at inside
    exact absurd inside.2.1 (by simp)
  · obtain rfl : index = 3 := by
      rw [index_eq] at recorded_eq
      exact (Int.ofNat.inj (Option.some.inj recorded_eq)).symm
    exact ⟨info, tree, last, parsed, steps_eq, name_eq, index_eq, tree_parsed, is_last, there, left⟩

end PathInfo

end LocationPath
