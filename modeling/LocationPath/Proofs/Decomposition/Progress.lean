import LocationPath.Proofs.Decomposition.Front
import LocationPath.Proofs.Decomposition.Walk
import LocationPath.Proofs.Placement.Source
import Mathlib.Data.List.TakeWhile

/-! # Accepted texts can be taken apart

The only thing that can go wrong in the walk through a tree is a step with a blank text. The text of
a step is made of tokens, and the only tokens that are white space throughout are names of Ogham
spaces. So the walk breaks off exactly if it comes to a step that is such a name and nothing else.

Main definition: `Node.isOghamStep`. Main results: `Front.trim_eq_nil_iff`, `PathInfo.parse_cases`
and `PathInfo.exists_parse`. -/

namespace LocationPath

/-! ## Blank texts -/

/-- A text of Ogham spaces and nothing else. -/
def Text.isOgham (text : Text) : Bool := text.all (· == oghamSpace)

namespace Text

/-- A text is trimmed away if all of it is white space. -/
theorem trim_eq_nil_iff {text : Text} :
    text.trim = [] ↔ ∀ c ∈ text, isWhiteSpace c = true := by
  rw [trim, List.reverse_eq_nil_iff, List.dropWhile_eq_nil_iff]
  constructor
  · intro white c mem
    by_contra no_white
    -- What is left behind the white space at the start begins with something else.
    have left : text.dropWhile isWhiteSpace ≠ [] := fun empty =>
      no_white (List.dropWhile_eq_nil_iff.1 empty c mem)
    have first := List.head_dropWhile_not isWhiteSpace left
    rw [white _ (List.mem_reverse.2 (List.head_mem left))] at first
    contradiction
  · intro white c mem
    exact white c ((List.dropWhile_suffix _).subset (List.mem_reverse.1 mem))

/-- The characters of a slice are characters of the text. -/
theorem mem_of_mem_slice {text : Text} {start stop : Nat} {c : Char}
    (mem : c ∈ text.slice start stop) : c ∈ text :=
  List.mem_of_mem_take (List.mem_of_mem_drop mem)

/-- A text of Ogham spaces is trimmed away. -/
theorem trim_eq_nil_of_isOgham {text : Text} (h : text.isOgham = true) : text.trim = [] := by
  refine trim_eq_nil_iff.2 fun c mem => ?_
  have eq := List.all_eq_true.1 h c mem
  rw [beq_iff_eq.1 eq]
  decide +kernel

end Text

/-- A lexeme that starts with white space is a name, and starts with an Ogham space. -/
theorem Lexeme.Spelled.of_isWhiteSpace {afterOperand : Bool} {lexeme : Lexeme} {c : Char}
    {more : Text} (h : lexeme.Spelled afterOperand c more) (white : isWhiteSpace c = true) :
    c = oghamSpace ∧ lexeme = .name (c :: more) ∧ more.all isNameChar = true := by
  have first_eq : c = oghamSpace := by
    by_contra ne
    rw [isWhiteSpace_of_isEdge h.isEdge.1 ne] at white
    contradiction
  refine ⟨first_eq, ?_⟩
  cases h with
  | literal quotation =>
    obtain rfl | rfl := quotation <;> simp [oghamSpace] at first_eq
  | fraction | times | star => simp [oghamSpace] at first_eq
  | pointed first | integer first =>
    rw [isWhiteSpace_of_isDigit first] at white
    contradiction
  | name first no_digit chars => exact ⟨rfl, chars⟩
  | nodeType _ _ _ _ mem =>
    have heads : ∀ name ∈ nodeTypeNames, name.head? ≠ some oghamSpace := by decide +kernel
    exact absurd (congrArg some first_eq) (heads _ mem)
  | @word _ _ word _ _ _ _ spelling =>
    have heads : ∀ word ∈ OperatorWord.all, word.spelling.head? ≠ some oghamSpace := by
      decide +kernel
    have mem : word ∈ OperatorWord.all := List.mem_of_find?_eq_some spelling
    refine absurd ?_ (heads word mem)
    rw [OperatorWord.spelling_of_ofName? spelling, first_eq]
    rfl
  | symbol mem =>
    have firsts : ∀ symbol ∈ symbols, symbol.2.1 ≠ oghamSpace := by decide +kernel
    exact absurd first_eq (firsts _ mem)

/-- **A lexeme that is white space throughout is a name of Ogham spaces.** -/
theorem Lexeme.Spelled.of_white {afterOperand : Bool} {lexeme : Lexeme} {c : Char} {more : Text}
    (h : lexeme.Spelled afterOperand c more) (white : ∀ d ∈ c :: more, isWhiteSpace d = true) :
    lexeme = .name (c :: more) ∧ Text.isOgham (c :: more) = true := by
  obtain ⟨first_eq, name_eq, chars⟩ := h.of_isWhiteSpace (white c (by simp))
  refine ⟨name_eq, List.all_eq_true.2 fun d mem => beq_iff_eq.2 ?_⟩
  obtain rfl | mem' := List.mem_cons.1 mem
  · exact first_eq
  · exact eq_oghamSpace_of_isNameChar (List.all_eq_true.1 chars d mem') (white d mem)

/-- The tokens of a blank text are names of Ogham spaces. -/
theorem Tokenized.exists_name_of_white {afterOperand : Bool} {start : Nat} {text : Text}
    {tokens : List Token} (h : Tokenized afterOperand start text tokens)
    (white : ∀ c ∈ text, isWhiteSpace c = true) :
    ∀ token ∈ tokens, ∃ name, token.lexeme = .name name ∧ name.isOgham = true := by
  intro token mem
  obtain ⟨after, c, more, spelled, eq⟩ := h.exists_spelled token mem
  refine ⟨c :: more, spelled.of_white fun d d_mem => white d ?_⟩
  rw [← eq] at d_mem
  exact Text.mem_of_mem_slice d_mem

/-- A name stands in the text as it is, and it is not empty. -/
theorem Tokenized.cut_of_name {text : Text} {tokens : List Token} {name : Text} {span : Span}
    (h : Tokenized false 0 text tokens) (mem : ⟨.name name, span⟩ ∈ tokens) :
    span.cut text = name ∧ name ≠ [] := by
  obtain ⟨after, c, more, spelled, eq⟩ := h.exists_spelled _ mem
  rw [Nat.sub_zero, Nat.sub_zero] at eq
  have name_eq : name = c :: more := spelled.name_eq
  rw [name_eq]
  exact ⟨eq, List.cons_ne_nil _ _⟩

/-! ## Blank steps -/

/-- Whether a node is a step that consists of a name of Ogham spaces, apart from predicates. -/
def Node.isOghamStep : Node → Bool
  | .step _ .unwritten (.name _ none name) _ => name.isOgham
  | _ => false

namespace Front

/-- A front is a name of Ogham spaces. -/
def IsOgham (front : Front) : Prop :=
  ∃ name span, front = .unwritten (.nameTest (.plainName name span)) ∧ name.isOgham = true

/-- A front whose tokens are names of Ogham spaces is one such name. -/
theorem isOgham_of_tokens {front : Front} (h : ∀ token ∈ front.tokens,
    ∃ name, token.lexeme = .name name ∧ name.isOgham = true) : front.IsOgham := by
  -- All other fronts have a token that is no name.
  cases front with
  | unwritten test =>
    cases test with
    | nameTest name =>
      cases name with
      | plainName name span =>
        obtain ⟨other, eq, ogham⟩ := h ⟨.name name, span⟩ List.mem_cons_self
        exact ⟨name, span, rfl, by rwa [Lexeme.name.inj eq]⟩
      | prefixedName => simp [tokens, Derivation.tokens] at h
    | _ => simp [tokens, Derivation.tokens] at h
  | signed | namedAxis | self | parent => simp [tokens] at h
  | primary base => cases base <;> simp [tokens, Derivation.tokens, or_imp, forall_and] at h

/-- **The own text of a step is blank exactly if it is a name of Ogham spaces.** -/
theorem trim_eq_nil_iff {text : Text} {front : Front} {before behind : List Token}
    (h : Tokenized false 0 text (before ++ (front.tokens ++ behind))) :
    (front.abbreviation?.getD (front.span.cut text)).trim = [] ↔ front.IsOgham := by
  constructor
  · intro blank
    cases abbreviation : front.abbreviation? with
    | some dots =>
      have dotted := head?_trim_of_abbreviation? abbreviation
      rw [abbreviation, Option.getD_some] at blank
      rw [blank] at dotted
      contradiction
    | none =>
      rw [abbreviation, Option.getD_none] at blank
      have white := (tokenized_cut h).1.exists_name_of_white (Text.trim_eq_nil_iff.1 blank)
      exact isOgham_of_tokens white
  · rintro ⟨name, span, rfl, ogham⟩
    have mem : ⟨.name name, span⟩ ∈ before ++ ([⟨.name name, span⟩] ++ behind) := by simp
    have cut : span.cut text = name := (h.cut_of_name mem).1
    show (span.cut text).trim = []
    rw [cut]
    exact Text.trim_eq_nil_of_isOgham ogham

/-- The step of a front is a name of Ogham spaces if the front is. -/
theorem isOghamStep_step (front : Front) (conditions : Derivation .predicates) :
    Node.isOghamStep (front.step conditions).value = true ↔ front.IsOgham := by
  constructor
  · intro ogham
    cases front with
    | unwritten test =>
      cases test with
      | nameTest name =>
        cases name with
        | plainName name span => exact ⟨name, span, rfl, ogham⟩
        | prefixedName => simp [step, Derivation.value, Node.isOghamStep] at ogham
      | anyTest star => simp [step, Derivation.value, Node.isOghamStep, Text.isOgham, oghamSpace] at ogham
      | _ => simp [step, Derivation.value, Node.isOghamStep] at ogham
    | primary base =>
      simp only [step, Derivation.value] at ogham
      split at ogham
      · cases base <;> simp [Derivation.value, Node.isOghamStep] at ogham
      · simp [Node.isOghamStep] at ogham
    | _ => simp [step, Derivation.value, Node.isOghamStep] at ogham
  · rintro ⟨name, span, rfl, ogham⟩
    exact ogham

end Front

namespace Derivation

/-- The walk through what a derivation builds comes to steps only, each of which is derived from
some of the tokens. -/
theorem exists_step_of_mem_walked (derivation : Derivation .expression) {node : Node}
    (mem : node ∈ Node.walked derivation.value) :
    ∃ (front : Front) (conditions : Derivation .predicates),
      (front.step conditions).value = node ∧
        (front.step conditions).tokens <:+: derivation.tokens := by
  obtain ⟨inside, alone⟩ := Node.of_mem_walked _ node mem
  -- A predicate or a node test would have no outermost step.
  cases derivation.partOf_of_mem_nodes node inside with
  | nodeTest | predicate => simp [Node.outermost] at alone
  | expression part part_inside =>
    obtain ⟨front, conditions, value_eq, step_inside⟩ :=
      part.exists_step_of_mem_outermost (by rw [alone]; exact List.mem_singleton_self _)
    exact ⟨front, conditions, value_eq, step_inside.trans part_inside⟩

/-- The text of a node that the walk comes to is blank exactly if it is a name of Ogham spaces,
which the source then holds. -/
theorem hasBlankText_iff {text : Text} (derivation : Derivation .expression)
    (tokenized : Tokenized false 0 text derivation.tokens) {node : Node}
    (mem : node ∈ Node.walked derivation.value) :
    (node.HasBlankText text ↔ node.isOghamStep = true) ∧
      (node.isOghamStep = true → oghamSpace ∈ text) := by
  obtain ⟨front, conditions, rfl, before, behind, tokens_eq⟩ :=
    derivation.exists_step_of_mem_walked mem
  rw [← tokens_eq, Front.tokens_step, List.append_assoc, List.append_assoc] at tokenized
  rw [Node.HasBlankText, Front.ownText_step, Front.isOghamStep_step]
  refine ⟨Front.trim_eq_nil_iff tokenized, ?_⟩
  rintro ⟨name, span, rfl, ogham⟩
  have mem : ⟨.name name, span⟩ ∈
      before ++ ([⟨.name name, span⟩] ++ (conditions.tokens ++ behind)) := by simp
  obtain ⟨cut, ne⟩ := tokenized.cut_of_name mem
  obtain ⟨c, rest, rfl⟩ := List.exists_cons_of_ne_nil ne
  have eq : c = oghamSpace := beq_iff_eq.1 (List.all_eq_true.1 ogham c (by simp))
  exact Text.mem_of_mem_slice (eq ▸ (cut ▸ List.mem_cons_self : c ∈ span.cut text))

end Derivation

/-! ## Taking apart -/

/-- **An accepted text can be taken apart unless the walk comes to a name of Ogham spaces.** -/
theorem PathInfo.parse_cases {text : Text} {tree : Node} (parsed : Node.parse text = .ok tree) :
    ((∃ node ∈ tree.walked, node.isOghamStep = true) ∧
        PathInfo.parse text = .error .blankStep) ∨
      (∀ node ∈ tree.walked, node.isOghamStep = false) ∧
        ∃ info, PathInfo.parse text = .ok info := by
  obtain ⟨derivation, tokenized, rfl⟩ := Node.parse_eq_ok_iff_exists.1 parsed
  have parse_eq : PathInfo.parse text = PathInfo.ofNode derivation.value text := by
    rw [PathInfo.parse, parsed]
    rfl
  rw [parse_eq, PathInfo.ofNode]
  obtain ⟨⟨node, mem, blank⟩, failed⟩ | ⟨clear, found, walked⟩ :=
    Node.collect_cases text derivation.guarded .empty
  · refine .inl ⟨⟨node, mem, (derivation.hasBlankText_iff tokenized mem).1.1 blank⟩, ?_⟩
    rw [failed]
    rfl
  · refine .inr ⟨fun node mem => ?_, found.toPathInfo text, by rw [walked]; rfl⟩
    -- No text that the walk comes to was blank.
    rw [← Bool.not_eq_true]
    exact fun ogham => clear node mem ((derivation.hasBlankText_iff tokenized mem).1.2 ogham)

/-- **An accepted text without the Ogham space can be taken apart.** -/
theorem PathInfo.exists_parse {text : Text} {tree : Node} (h : Node.parse text = .ok tree)
    (no_ogham : oghamSpace ∉ text) : ∃ info, PathInfo.parse text = .ok info := by
  obtain ⟨⟨node, mem, ogham⟩, -⟩ | ⟨-, info, parsed⟩ := PathInfo.parse_cases h
  · obtain ⟨derivation, tokenized, rfl⟩ := Node.parse_eq_ok_iff_exists.1 h
    exact absurd ((derivation.hasBlankText_iff tokenized mem).2 ogham) no_ogham
  · exact ⟨info, parsed⟩

end LocationPath
