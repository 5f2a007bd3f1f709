import LocationPath.Proofs.Path.Joining

/-! # Paths on an axis

An axis in front of a path turns its first step into a step on the axis if this is a node test
alone. In front of anything else the axis has no node test behind its mark, and the text is no
expression, whatever follows.

Main definition: `Node.isUnqualified`. Main results: `Derivation.exists_test_of_axis` and
`Path.addAxis_outcomes`. -/

namespace LocationPath

/-- Whether a node is a step with a node test and without an axis. -/
def Node.isUnqualified : Node → Bool
  | .step _ .unwritten _ _ => true
  | _ => false

/-! ## The first step of an expression -/

namespace Derivation

/-- What `exists_first_step` says of one derivation. -/
def BeginsWithStep : {phrase : Phrase} → Derivation phrase → Prop
  | .level _, derivation =>
    (∀ token ∈ derivation.tokens.head?, token.lexeme.startsStep = true) →
      ∃ (step : Derivation (.level .step)) (rest : List Token),
        derivation.tokens = step.tokens ++ rest ∧ Level.step.Stops rest
  | _, _ => True

/-- Every expression that begins as a step does begins with a step. -/
theorem beginsWithStep {phrase : Phrase} (derivation : Derivation phrase) :
    derivation.BeginsWithStep := by
  induction derivation with
  | operand only ih | unnegated only ih | relative only ih => exact ih
  | @link chain left op joins right ihl ihr =>
    intro starts
    obtain ⟨token, tail, left_eq, -⟩ := left.exists_first
    obtain ⟨step, rest, eq, stops⟩ := ihl (by simpa [tokens, left_eq] using starts)
    refine ⟨step, rest ++ op :: right.tokens, by simp [tokens, eq], ?_⟩
    -- Behind the whole of the left side stands an operator, which makes no step longer.
    cases rest with
    | nil => exact (Chain.stops_operand chain op joins _).of_height_le (Nat.zero_le _)
    | cons first rest => simpa using stops
  | negated | root | absolute | anywhere =>
    intro starts
    simp [tokens, Lexeme.startsStep] at starts
  | axisStep | filterStep => exact fun _ => ⟨_, [], (List.append_nil _).symm, Level.stops_nil _⟩
  | _ => trivial

/-- **An expression that begins as a step does begins with a step**, and what follows the step does
not make it longer. -/
theorem exists_first_step {level : Level} {derivation : Derivation (.level level)} {token : Token}
    {tail : List Token} (eq : derivation.tokens = token :: tail)
    (starts : token.lexeme.startsStep = true) :
    ∃ (front : Front) (conditions : Derivation .predicates) (rest : List Token),
      derivation.tokens = front.tokens ++ (conditions.tokens ++ rest) ∧ Level.step.Stops rest := by
  obtain ⟨step, rest, step_eq, stops⟩ := derivation.beginsWithStep (by simpa [eq] using starts)
  obtain ⟨front, conditions, rfl⟩ := Front.exists_step step
  exact ⟨front, conditions, rest, by rw [step_eq, Front.tokens_step, List.append_assoc], stops⟩

end Derivation

/-! ## Behind the mark of an axis -/

namespace Front

/-- The node of a step is one without an axis if the front of the step is a node test alone. -/
theorem isUnqualified_step (front : Front) (conditions : Derivation .predicates) :
    (front.step conditions).value.isUnqualified = true ↔ ∃ test, front = .unwritten test := by
  cases front with
  | unwritten test => exact ⟨fun _ => ⟨test, rfl⟩, fun _ => rfl⟩
  | primary base =>
    simp only [step, Derivation.value, reduceCtorEq, exists_false, iff_false]
    split
    · cases base <;> simp [Derivation.value, Node.isUnqualified]
    · simp [Node.isUnqualified]
  | _ => simp [step, Derivation.value, Node.isUnqualified]

/-- A front is a node test alone wherever it stands. -/
theorem exists_unwritten_move {front : Front} {starts stops : Nat → Nat} :
    (∃ test, front.move starts stops = .unwritten test) ↔ ∃ test, front = .unwritten test := by
  cases front with
  | unwritten test => exact ⟨fun _ => ⟨test, rfl⟩, fun _ => ⟨_, rfl⟩⟩
  | _ => simp [move]

/-- A front that begins with a name and the mark of an axis is a node test on the axis. -/
theorem exists_test_of_tokens {front : Front} {conditions : Derivation .predicates}
    {rest tail : List Token} {axis : Text} {name mark : Span}
    (eq : front.tokens ++ (conditions.tokens ++ rest) =
      ⟨.name axis, name⟩ :: ⟨.axisMark, mark⟩ :: tail)
    (stops : Level.step.Stops rest) :
    ∃ test : Derivation .nodeTest, test.tokens ++ (conditions.tokens ++ rest) = tail := by
  cases front with
  | namedAxis axis name mark test =>
    simp only [tokens, List.cons_append, List.cons.injEq] at eq
    exact ⟨test, eq.2.2⟩
  | unwritten test => exact absurd eq (Derivation.nodeTest_ne_axis stops)
  | primary base =>
    cases base with
    | emptyCall called | call called => cases called <;> simp [tokens, Derivation.tokens] at eq
    | _ => simp [tokens, Derivation.tokens] at eq
  | _ => simp [tokens] at eq

/-- A front that begins as a node test does is this node test. -/
theorem eq_unwritten_of_tokens {front : Front} {test : Derivation .nodeTest}
    {conditions : Derivation .predicates} {rest behind : List Token}
    (eq : test.tokens ++ (conditions.tokens ++ rest) = front.tokens ++ behind)
    (stops : Level.step.Stops rest) (stops' : Level.step.Stops behind) :
    front = .unwritten test := by
  have whole : ((Front.unwritten test).step conditions).tokens ++ rest =
      (front.step .noPredicate).tokens ++ behind := by
    simpa [tokens, Derivation.tokens] using eq
  have same := (((unwritten test).step conditions).settled.unique _ _ _ whole stops stops').1
  cases front with
  | unwritten other =>
    simp only [step, Derivation.axisStep.injEq, Derivation.testStep.injEq] at same
    rw [same.1]
  | _ => simp [step] at same

end Front

/-- **Behind the mark of an axis at its start, an expression goes on with a node test.** -/
theorem Derivation.exists_test_of_axis {level : Level} {derivation : Derivation (.level level)}
    {axis : Text} {name mark : Span} {front : Front} {behind : List Token}
    (eq : derivation.tokens = ⟨.name axis, name⟩ :: ⟨.axisMark, mark⟩ :: (front.tokens ++ behind))
    (stops : Level.step.Stops behind) : ∃ test, front = .unwritten test := by
  obtain ⟨first, conditions, rest, first_eq, stops'⟩ := derivation.exists_first_step eq rfl
  obtain ⟨test, test_eq⟩ := Front.exists_test_of_tokens (first_eq.symm.trans eq) stops'
  exact ⟨test, Front.eq_unwritten_of_tokens test_eq stops' stops⟩

/-! ## The name of an axis -/

/-- An ASCII letter starts a name and is neither a digit nor white space. -/
theorem of_isAlpha {c : Char} (h : c.isAlpha = true) :
    isNameStart c = true ∧ isDigit c = false ∧ c ≠ oghamSpace := by
  have bounds : 0x41 ≤ c.toNat ∧ c.toNat ≤ 0x5a ∨ 0x61 ≤ c.toNat ∧ c.toNat ≤ 0x7a := by
    change (decide ('A'.val ≤ c.val ∧ c.val ≤ 'Z'.val) ||
      (decide ('a'.val ≤ c.val) && decide (c.val ≤ 'z'.val))) = true at h
    simpa [UInt32.le_iff_toNat_le] using h
  refine ⟨?_, ?_, ?_⟩
  · rw [isNameStart, inRanges_iff]
    obtain upper | lower := bounds
    · exact ⟨(0x41, 0x5a), by simp [nameStartRanges], upper⟩
    · exact ⟨(0x61, 0x7a), by simp [nameStartRanges], lower⟩
  -- No row of ten digits reaches into the letters.
  · have apart : ∀ origin ∈ zeroDigits, origin + 9 < 0x41 ∨ 0x7a < origin := by decide +kernel
    rw [Bool.eq_false_iff]
    intro digit
    obtain ⟨origin, mem, near⟩ := exists_zeroDigit digit
    have := apart origin mem
    omega
  · rintro rfl
    revert bounds
    decide

/-- Letters spell a name, where no operator can stand. -/
theorem Lexeme.exists_spelled_of_letters {axis : Text} (ne : axis ≠ [])
    (letters : axis.all Char.isAlpha = true) :
    ∃ c more, axis = c :: more ∧ (Lexeme.name axis).Spelled false c more := by
  obtain ⟨c, more, rfl⟩ := List.exists_cons_of_ne_nil ne
  rw [List.all_cons, Bool.and_eq_true] at letters
  obtain ⟨first, no_digit, -⟩ := of_isAlpha letters.1
  refine ⟨c, more, rfl, .name first no_digit ?_ (by simp)⟩
  exact List.all_eq_true.2 fun d mem =>
    isNameChar_of_isNameStart (of_isAlpha (List.all_eq_true.1 letters.2 d mem)).1

/-- The tokens of an axis, its mark and a text. -/
theorem Tokenized.qualify {axis text : Text} {tokens : List Token} (ne : axis ≠ [])
    (letters : axis.all Char.isAlpha = true)
    (h : Tokenized false (axis.length + 2) text tokens) :
    Tokenized false 0 (axis ++ ':' :: ':' :: text)
      (⟨.name axis, ⟨0, axis.length⟩⟩ ::
        ⟨.axisMark, ⟨axis.length, axis.length + 2⟩⟩ :: tokens) := by
  obtain ⟨c, more, axis_eq, spelled⟩ := Lexeme.exists_spelled_of_letters ne letters
  have length : axis.length = 0 + 1 + more.length := by
    rw [axis_eq, List.length_cons]
    omega
  have mark : (Lexeme.axisMark, ':', [':']) ∈ Lexeme.symbols := by simp [Lexeme.symbols]
  have marked : Tokenized true axis.length ([] ++ ':' :: ([':'] ++ text))
      (⟨.axisMark, ⟨axis.length, axis.length + 2⟩⟩ :: tokens) :=
    .token List.all_nil (.symbol mark) trivial rfl rfl h
  -- A colon goes on with no name.
  have stays : (Lexeme.name axis).StaysBefore c (':' :: ':' :: text) := by
    refine ⟨fun d mem => ?_, fun _ => rfl⟩
    obtain rfl := Option.mem_some.1 mem
    decide +kernel
  have named : Tokenized false 0 ([] ++ c :: (more ++ ':' :: ':' :: text))
      (⟨.name axis, ⟨0, axis.length⟩⟩ :: ⟨.axisMark, ⟨axis.length, axis.length + 2⟩⟩ :: tokens) :=
    .token List.all_nil spelled stays rfl length marked
  rwa [List.nil_append, ← List.cons_append, ← axis_eq] at named

/-! ## Steps on an axis -/

/-- **A node test alone may stand behind an axis**, and is a step with it. -/
theorem Step.ReadsAs.exists_qualified {step : Step} {test : Derivation .nodeTest}
    (h : step.ReadsAs (.unwritten test)) {axis : Text} (ne : axis ≠ [])
    (letters : axis.all Char.isAlpha = true) :
    ∃ qualified : Step, qualified.text = axis ++ ':' :: ':' :: step.text ∧
      qualified.Readable := by
  let move : Nat → Nat := (· + (axis.length + 2))
  let front : Front := .namedAxis axis ⟨0, axis.length⟩ ⟨axis.length, axis.length + 2⟩
    (test.move move move)
  have moved : Tokenized false (axis.length + 2) step.text (test.move move move).tokens := by
    rw [Derivation.tokens_move]
    exact h.spells.tokenized.moved (axis.length + 2)
  have tokenized : Tokenized false 0 (axis ++ ':' :: ':' :: step.text) front.tokens :=
    moved.qualify ne letters
  -- The node test goes behind the axis and its mark.
  have tested : (test.move move move).value.span =
      ⟨axis.length + 2, step.text.length + (axis.length + 2)⟩ := by
    have placed := (Front.unwritten test).span_move move move
    rw [h.spells.span_eq, Span.move, show move 0 = axis.length + 2 from Nat.zero_add _] at placed
    exact placed
  have span_eq : front.span = ⟨0, (axis ++ ':' :: ':' :: step.text).length⟩ := by
    show Span.mk 0 (test.move move move).value.span.stop = _
    rw [tested, List.length_append, List.length_cons, List.length_cons]
    congr 1
    dsimp only
    omega
  have clear : oghamSpace ∉ axis ++ ':' :: ':' :: step.text := by
    simp only [List.mem_append, List.mem_cons]
    rintro (mem | eq | eq | mem)
    · exact (of_isAlpha (List.all_eq_true.1 letters _ mem)).2.2 rfl
    · exact absurd eq (by decide)
    · exact absurd eq (by decide)
    · exact h.no_ogham (List.mem_append_left _ mem)
  have trimmed := (tokenized.trim_eq (front.covers tokenized.inOrder) (by rw [span_eq])
    (by rw [span_eq, Nat.zero_add]) clear).1
  exact ⟨⟨axis ++ ':' :: ':' :: step.text, [], trimmed, by simp⟩, rfl, front,
    ⟨tokenized, span_eq⟩, by simp, by simpa [Step.toText, Step.predicateText] using clear⟩

namespace Path

/-- The tokens of a path without predicates are those of its first step, and others that do not make
this step longer. -/
theorem exists_tokenized_bare {first : Step} {front : Front} (h : first.ReadsAs front)
    {others : List Step} (readable : ∀ step ∈ others, step.Readable) (start : Nat) :
    ∃ behind, Tokenized false start (bare (first :: others))
        ((front.move (· + start) (· + start)).tokens ++ behind) ∧ Level.step.Stops behind := by
  have moved := h.spells.tokenized.moved start
  rw [← Front.tokens_move] at moved
  cases others with
  | nil => exact ⟨[], by simpa [bare] using moved, Level.stops_nil _⟩
  | cons second others =>
    obtain ⟨chain, tokenized, -⟩ := chains_bare (List.cons_ne_nil second others) readable
    obtain ⟨second_front, reads⟩ := (readable second (by simp)).unfiltered
    obtain ⟨c, rest, text_eq, -, no_slash⟩ := reads.exists_head
    have parted : bare (first :: second :: others) =
        first.text ++ '/' :: bare (second :: others) := by
      simp [bare, List.intercalate_cons_cons]
    have head : (bare (second :: others)).head? = some c := by
      rw [Step.toText_unfiltered] at text_eq
      rw [bare, List.map_cons, intercalate_slash, text_eq]
      rfl
    -- No step starts with a slash, with which the one in front of it would be a double one.
    have stays : Lexeme.slash.StaysBefore '/' (bare (second :: others)) := by
      rw [Lexeme.StaysBefore, head]
      simpa using no_slash
    obtain ⟨earlier, last, last_eq, ends⟩ := (front.move (· + start) (· + start)).exists_last
    rw [parted]
    exact ⟨_, moved.append (.cons_mark .slash '/' (by simp [Lexeme.symbols]) stays
      (tokenized.moved _)) (Token.meets_of_endsStep last_eq ends (by simp)),
        Chain.stops_operand .steps _ rfl _⟩

/-! ## The path on an axis -/

/-- The path on an axis is the axis in front of what follows the steps back. -/
theorem addAxis_eq {axis path : Text} {backs others : List Step} {first : Step}
    (found : steps path = .ok (backs ++ first :: others))
    (parents : ∀ step ∈ backs, step.isParent = true) (no_parent : first.isParent = false) :
    addAxis axis path = .ok (axis ++ ':' :: ':' :: bare (first :: others)) := by
  rw [addAxis, found]
  simp only [bind, Except.bind]
  rw [List.dropWhile_append_of_pos parents, List.dropWhile_cons_of_neg (by simp [no_parent])]
  rfl

/-- There is no path on an axis if all steps go back. -/
theorem addAxis_eq_error_iff {axis path : Text} {found : List Step}
    (found_eq : steps path = .ok found) : addAxis axis path =
      .error (.nothingToQualify axis path) ↔ ∀ step ∈ found, step.isParent = true := by
  rw [addAxis, found_eq, ← List.dropWhile_eq_nil_iff]
  simp only [bind, Except.bind]
  cases found.dropWhile Step.isParent with
  | nil => simp
  | cons first others => simp [pure, Except.pure]

/-- The step at an index of a path can be read back as a front, which is a node test alone if the node
of the step is a step without an axis. -/
theorem exists_node_of_getElem? {text : Text} {tree : Node} {found : List Step} {index : Nat}
    {step : Step} (parsed : Node.parse text = .ok tree) (no_ogham : oghamSpace ∉ text)
    (found_eq : steps text = .ok found) (at_index : found[index]? = some step) :
    ∃ node front, tree.outermost[index]? = some node ∧ step.ReadsAs front ∧
      (node.isUnqualified = true ↔ ∃ test, front = .unwritten test) := by
  obtain ⟨derivation, tokenized, rfl⟩ := Node.parse_eq_ok_iff_exists.1 parsed
  obtain ⟨info, taken, info_eq⟩ := bind_eq_ok_iff.1 found_eq
  obtain rfl : info.locationSteps = found := Except.ok.inj info_eq
  obtain ⟨front, conditions, node_at, starts, stops, reads⟩ :=
    PathInfo.exists_readsAs_at tokenized taken no_ogham at_index
  refine ⟨_, _, node_at, reads, ?_⟩
  rw [Front.isUnqualified_step, Front.exists_unwritten_move]

/-- A path on an axis is an expression only if its first step is a node test alone. -/
theorem exists_test_of_isExpression {axis : Text} (ne : axis ≠ [])
    (letters : axis.all Char.isAlpha = true) {first : Step} {front : Front}
    (reads : first.ReadsAs front) {others : List Step}
    (readable : ∀ step ∈ others, step.Readable)
    (h : (axis ++ ':' :: ':' :: bare (first :: others)).IsExpression) :
    ∃ test, front = .unwritten test := by
  obtain ⟨behind, tokenized, stops⟩ := exists_tokenized_bare reads readable (axis.length + 2)
  obtain ⟨tree, parsed⟩ := h
  obtain ⟨derivation, derived, -⟩ := Node.parse_eq_ok_iff_exists.1 parsed
  -- A text has its tokens in one way only, and the grammar is unambiguous.
  have tokens_eq := Lexing.mk.inj
    ((tokenized_iff.1 derived).symm.trans (tokenized_iff.1 (tokenized.qualify ne letters)))
  exact Front.exists_unwritten_move.1 (Derivation.exists_test_of_axis tokens_eq.1 stops)

/-- A path on an axis has the axis in the text of its first step, if this is a node test alone. -/
theorem exists_steps_of_unwritten {axis : Text} (ne : axis ≠ [])
    (letters : axis.all Char.isAlpha = true) {first : Step} {front : Front}
    (reads : first.ReadsAs front) {others : List Step}
    (readable : ∀ step ∈ others, step.Readable) (unwritten : ∃ test, front = .unwritten test) :
    ∃ qualified : List Step,
      steps (axis ++ ':' :: ':' :: bare (first :: others)) = .ok qualified ∧
        qualified.map (·.text) = (axis ++ ':' :: ':' :: first.text) :: others.map (·.text) ∧
        ∀ step ∈ qualified, step.predicates = [] := by
  obtain ⟨test, rfl⟩ := unwritten
  obtain ⟨start, start_text, start_readable⟩ := reads.exists_qualified ne letters
  have all_readable : ∀ step ∈ start :: others, step.Readable := by
    intro step mem
    obtain rfl | mem := List.mem_cons.1 mem
    · exact start_readable
    · exact readable step mem
  -- The axis belongs to the text of the first step.
  have text_eq : axis ++ ':' :: ':' :: bare (first :: others) = bare (start :: others) := by
    simp only [bare, List.map_cons, intercalate_slash, start_text, List.append_assoc,
      List.cons_append]
  refine ⟨(start :: others).map Step.unfiltered, ?_, ?_, fun step mem => ?_⟩
  · rw [text_eq]
    exact steps_bare (List.cons_ne_nil _ _) all_readable
  · rw [List.map_map, ← start_text]
    rfl
  · obtain ⟨original, -, rfl⟩ := List.mem_map.1 mem
    rfl

/-- **Only a path that starts with a node test alone may be put on an axis**, steps back aside. For
an axis of letters and an accepted path, there is no path on the axis exactly if all steps of the
path go back. Otherwise the path on the axis is an expression exactly if the node of the first other
step is a step without an axis; and then its steps have no predicates, and the texts of those from
this step on, with the axis in front of the first one. -/
theorem addAxis_outcomes {axis path : Text} {tree : Node} (ne : axis ≠ [])
    (letters : axis.all Char.isAlpha = true) (no_ogham : oghamSpace ∉ path)
    (parsed : Node.parse path = .ok tree) : ∃ found, steps path = .ok found ∧
      (addAxis axis path = .error (.nothingToQualify axis path) ↔
        ∀ step ∈ found, step.text = ['.', '.']) ∧
      ∀ backs first others, found = backs ++ first :: others →
        (∀ step ∈ backs, step.text = ['.', '.']) → first.text ≠ ['.', '.'] →
        ∃ node result, tree.outermost[backs.length]? = some node ∧
          addAxis axis path = .ok result ∧
          (result.IsExpression ↔ node.isUnqualified = true) ∧
          (result.IsExpression → ∃ qualified, steps result = .ok qualified ∧
            qualified.map (·.text) = (axis ++ ':' :: ':' :: first.text) :: others.map (·.text) ∧
              ∀ step ∈ qualified, step.predicates = []) := by
  obtain ⟨info, taken⟩ := PathInfo.exists_parse parsed no_ogham
  have found_eq : steps path = .ok info.locationSteps := by rw [steps, taken]; rfl
  have isParent_iff : ∀ step : Step, step.isParent = true ↔ step.text = ['.', '.'] := fun step =>
    beq_iff_eq
  refine ⟨info.locationSteps, found_eq, ?_, fun backs first others split parents no_parent => ?_⟩
  · simp only [addAxis_eq_error_iff found_eq, isParent_iff]
  have readable := readable_of_steps found_eq no_ogham
  rw [split] at found_eq readable
  have others_readable : ∀ step ∈ others, step.Readable := fun step mem =>
    readable step (by simp [mem])
  have at_index : (backs ++ first :: others)[backs.length]? = some first := by simp
  obtain ⟨node, front, node_at, reads, unqualified_iff⟩ :=
    exists_node_of_getElem? parsed no_ogham found_eq at_index
  have computed : addAxis axis path = .ok (axis ++ ':' :: ':' :: bare (first :: others)) :=
    addAxis_eq found_eq (fun step mem => (isParent_iff step).2 (parents step mem))
      (Bool.eq_false_iff.2 fun parent => no_parent ((isParent_iff first).1 parent))
  -- Both directions go by the front of the first step that stays.
  have has_test := exists_test_of_isExpression ne letters reads others_readable
  have has_steps := exists_steps_of_unwritten ne letters reads others_readable
  refine ⟨node, _, node_at, computed, ?_, fun expression => has_steps (has_test expression)⟩
  rw [unqualified_iff]
  refine ⟨has_test, fun unwritten => ?_⟩
  obtain ⟨qualified, qualified_eq, -⟩ := has_steps unwritten
  obtain ⟨info, taken, -⟩ := bind_eq_ok_iff.1 qualified_eq
  obtain ⟨tree, parsed, -⟩ := bind_eq_ok_iff.1 taken
  exact ⟨tree, parsed⟩

/-- A test for text is put on an axis, with a further step on another axis behind it. A call of a
function is put there too, but the text is no expression. -/
theorem addAxis_outcomes_of_parentheses :
    addAxis "child".toList "../..[y]/text()[1]/@c".toList = .ok "child::text()/@c".toList ∧
      Text.IsExpression "child::text()/@c".toList ∧
      addAxis "child".toList "../..[y]/last()[1]/@c".toList = .ok "child::last()/@c".toList ∧
      ¬ Text.IsExpression "child::last()/@c".toList := by
  let back (predicates : List Text) : Step := ⟨['.', '.'], predicates, by decide +kernel, by decide⟩
  let last : Step := ⟨"@c".toList, [], by decide +kernel, by decide⟩
  have outcome : ∀ (path result : Text) (first : Step) (unqualified : Bool), oghamSpace ∉ path →
      steps path = .ok ([back [], back ["y".toList]] ++ first :: [last]) →
      first.text ≠ ['.', '.'] →
      (Node.parse path).map (·.outermost[2]?.map Node.isUnqualified) = .ok (some unqualified) →
      addAxis "child".toList path = .ok result →
        (result.IsExpression ↔ unqualified = true) := by
    intro path result first unqualified no_ogham steps_eq no_parent kind computed
    obtain ⟨tree, parsed, kind⟩ := map_eq_ok_iff.1 kind
    obtain ⟨found, found_eq, -, follows⟩ :=
      @addAxis_outcomes "child".toList _ _ (by decide) (by decide) no_ogham parsed
    obtain rfl := Except.ok.inj (steps_eq.symm.trans found_eq)
    obtain ⟨node, result', node_at, computed', expression_iff, -⟩ :=
      follows _ first _ rfl (by simp [back]) no_parent
    obtain rfl := Except.ok.inj (computed.symm.trans computed')
    have kind : some node.isUnqualified = some unqualified := by
      rw [← kind]
      exact congrArg (Option.map Node.isUnqualified) node_at.symm
    rw [expression_iff, Option.some.inj kind]
  have test_computed : addAxis "child".toList "../..[y]/text()[1]/@c".toList =
      .ok "child::text()/@c".toList := by decide +kernel
  have call_computed : addAxis "child".toList "../..[y]/last()[1]/@c".toList =
      .ok "child::last()/@c".toList := by decide +kernel
  refine ⟨test_computed, ?_, call_computed, ?_⟩
  · exact (outcome _ _ ⟨"text()".toList, ["1".toList], by decide +kernel, by decide⟩ true
      (by decide +kernel) (by decide +kernel) (by decide) (by decide +kernel) test_computed).2 rfl
  · have expression_iff := outcome _ _
      ⟨"last()".toList, ["1".toList], by decide +kernel, by decide⟩ false (by decide +kernel)
      (by decide +kernel) (by decide) (by decide +kernel) call_computed
    exact fun expression => Bool.false_ne_true (expression_iff.1 expression)

end Path

end LocationPath
